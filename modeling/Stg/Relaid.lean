import Stg.Status
import Stg.Btf.Linked
import Stg.Btf.Renumbered

set_option autoImplicit false

/- What the program makes of BTF depends on the records: not on how they are laid out, nor
does its exit status on how they are numbered. -/
namespace Stg

open Btf (Record Acceptable Sectioned Finished Corresponds Renumbered)

section

variable {data data' : List UInt8} {records records' : List Record}
  {linked linked' s s' : Btf.Structs}
  {root root' id id' : Id} {π : Equiv.Perm UInt32}

theorem Btf.Finished.slot_lt (finished : Finished data ⟨[]⟩ records linked root s) {index : UInt32}
    (slot : s.btfTypeIds.lookup index = some id) : id.ix < s.graph.nodes.length := by
  have positive := (finished.inv.slot index id (finished.lookup_eq.1 ▸ slot)).1
  exact finished.stands_lt (.inl ((Btf.Structs.denotes_positive positive).mpr slot))

theorem Btf.Corresponds.inside (corresponds : Corresponds π s s' root root' id id')
    (finished : Finished data ⟨[]⟩ records linked root s) : id.ix < s.graph.nodes.length := by
  cases corresponds with
  | root => exact Graph.Is.lt ⟨_, finished.got_root⟩
  | void shared => exact Graph.Is.lt ⟨_, finished.void_is shared⟩
  | variadic shared => exact Graph.Is.lt ⟨_, finished.variadic_is shared⟩
  | slot slot => exact finished.slot_lt slot
  | member holds =>
    obtain ⟨_, node, got, _⟩ := holds
    exact Graph.Is.lt ⟨node, got⟩

end

namespace Stgdiff

variable {env env' : Environment} {fuel fuel' : Nat} {program : String}
  {arguments arguments' : List String}
  {settings settings' : Settings} {ending ending' : Ending}
  {file file' file1 file2 file1' file2' : String}
  {records records' records1 records2 records1' records2' : List Record}

/-- The section that is read of a file. -/
def Environment.btf (env : Environment) (file : String) : Except Error (List UInt8) := do
  let elf ← Elf.load env.elfVersionMatches file (env.elf file)
  elf.getBtfRawData

/-- The file has a section that is accepted as the records. -/
def Environment.HoldsRecords (env : Environment) (fuel : Nat) (file : String) (records : List Record) : Prop :=
  ∃ data, env.btf file = .ok data ∧ data.length < fuel ∧ Acceptable data false ∧ Sectioned data records

theorem reads_btf (env : Environment) (fuel : Nat) (file : String) {data : List UInt8}
    (found : env.btf file = .ok data) :
    env.reads fuel (.btf, file) = match (Btf.process data fuel false).run { graph := ⟨[]⟩ } with
      | .ok id s => .ok (id, s.graph)
      | .error reason _ => .error reason := by
  obtain ⟨elf, loaded, raw⟩ := bind_eq_ok found
  simp only [Environment.reads, readInput, readBtf, loaded, bind, Except.bind, raw]
  rfl

/-- What is read of a file is what linking its records gives. -/
theorem Environment.HoldsRecords.reads (holds : env.HoldsRecords fuel file records) :
    ∃ data root linked s, Finished data ⟨[]⟩ records linked root s ∧
      env.reads fuel (.btf, file) = .ok (root, s.graph) ∧
      (Btf.linkAll records).run { graph := ⟨[]⟩ } = .ok root s.quiet := by
  obtain ⟨data, found, enough, acceptable, sectioned⟩ := holds
  obtain ⟨root, s, ran⟩ := (Btf.process_decides data ⟨[]⟩ false enough).returns_iff.mpr acceptable
  obtain ⟨records', linked, finished⟩ := (Btf.process_ends data ⟨[]⟩ false enough).returns ran
  obtain rfl := Btf.Records.unique sectioned finished.sectioned
  have does := Btf.process_does finished.formed ⟨[]⟩ false enough finished.sectioned
  obtain ⟨_, _, ran', rfl⟩ := EStateM.Ends.returns does ran
  refine ⟨data, root, linked, s, finished, ?_, ran'⟩
  rw [reads_btf env fuel file found, ran]

theorem reads_relaid (holds : env.HoldsRecords fuel file records)
    (holds' : env'.HoldsRecords fuel file' records) :
    env'.reads fuel (.btf, file') = env.reads fuel (.btf, file) := by
  obtain ⟨_, root, _, s, _, reads, ran⟩ := holds.reads
  obtain ⟨_, root', _, s', _, reads', ran'⟩ := holds'.reads
  obtain ⟨rfl, quiet⟩ := EStateM.Result.ok.inj (ran.symm.trans ran')
  have graph : s.quiet.graph = s'.quiet.graph := by rw [quiet]
  have graph : s.graph = s'.graph := graph
  rw [reads, reads', graph]

theorem Environment.HoldsRecords.readsAlike (holds : env.HoldsRecords fuel file records)
    (holds' : env'.HoldsRecords fuel file' records) :
    ReadsAlike env env' fuel (.btf, file) (.btf, file') :=
  fun root graph reads =>
    ⟨root, graph, id, (reads_relaid holds holds').trans reads, .refl graph root⟩

/-- Runs that return have found the same, whatever the numbers of the records. -/
theorem run_renumbered {π1 π2 : Equiv.Perm UInt32} {options : CompareOptions}
    (holds1 : env.HoldsRecords fuel file1 records1) (holds2 : env.HoldsRecords fuel file2 records2)
    (holds1' : env'.HoldsRecords fuel' file1' records1')
    (holds2' : env'.HoldsRecords fuel' file2' records2')
    (renumbered1 : Renumbered π1 records1 records1')
    (renumbered2 : Renumbered π2 records2 records2')
    {equals equals' : Bool} {outputs outputs' : Outputs}
    {written written' after after' : List (String × String)}
    (ran : (run env fuel [(.btf, file1), (.btf, file2)] outputs options).run written =
      .ok equals after)
    (ran' : (run env' fuel' [(.btf, file1'), (.btf, file2')] outputs' options).run written' =
      .ok equals' after') :
    equals' = equals := by
  obtain ⟨_, _, _, _, comparison, s, reads1, reads2, compares, _⟩ := run_returns ran
  obtain ⟨_, _, _, _, comparison', s', reads1', reads2', compares', _⟩ := run_returns ran'
  obtain ⟨_, _, _, _, finished1, read1, _⟩ := holds1.reads
  obtain ⟨_, _, _, _, finished2, read2, _⟩ := holds2.reads
  obtain ⟨_, _, _, _, finished1', read1', _⟩ := holds1'.reads
  obtain ⟨_, _, _, _, finished2', read2', _⟩ := holds2'.reads
  cases reads1.symm.trans read1
  cases reads2.symm.trans read2
  cases reads1'.symm.trans read1'
  cases reads2'.symm.trans read2'
  have resembles := (renumbered1.resembles finished1 finished1').beside
    (renumbered2.resembles finished2 finished2')
    fun _ _ corresponds => ⟨corresponds.inside finished1, corresponds.symm.inside finished1'⟩
  exact resembles.verdict_eq (.below .root) (.above .root) ⟨fuel, comparison, s, compares⟩
    ⟨fuel', comparison', s', compares'⟩

/-- With the same arguments the program does the same on BTF that says the same records,
however their names are shared and whatever surrounds them. -/
theorem main_relaid (parsed : processArguments arguments = some settings)
    (inputs : settings.inputs = [(.btf, file1), (.btf, file2)])
    (holds1 : env.HoldsRecords fuel file1 records1) (holds2 : env.HoldsRecords fuel file2 records2)
    (holds1' : env'.HoldsRecords fuel file1 records1) (holds2' : env'.HoldsRecords fuel file2 records2)
    (writes : env'.writes = env.writes) :
    main env' fuel program arguments = main env fuel program arguments := by
  obtain ⟨_, root1, _, s1, _, reads1, _⟩ := holds1.reads
  obtain ⟨_, root2, _, s2, _, reads2, _⟩ := holds2.reads
  have same (options : CompareOptions) :
      run env' fuel [(.btf, file1), (.btf, file2)] settings.outputs options =
        run env fuel [(.btf, file1), (.btf, file2)] settings.outputs options :=
    run_alike writes (holds1.readsAlike holds1')
      (holds2.readsAlike holds2') reads1 reads2 settings.outputs
  unfold main
  rw [parsed]
  dsimp only
  rw [inputs, same]

/-- The exit status does not depend on how the records of the inputs are numbered. -/
theorem main_renumbered {π1 π2 : Equiv.Perm UInt32} (parsed : processArguments arguments = some settings)
    (parsed' : processArguments arguments' = some settings')
    (inputs : settings.inputs = [(.btf, file1), (.btf, file2)])
    (inputs' : settings'.inputs = [(.btf, file1'), (.btf, file2')])
    (options : settings'.compareOptions = settings.compareOptions)
    (holds1 : env.HoldsRecords fuel file1 records1) (holds2 : env.HoldsRecords fuel file2 records2)
    (holds1' : env'.HoldsRecords fuel' file1' records1') (holds2' : env'.HoldsRecords fuel' file2' records2')
    (renumbered1 : Renumbered π1 records1 records1') (renumbered2 : Renumbered π2 records2 records2')
    (ended : main env fuel program arguments = .ok ending)
    (ended' : main env' fuel' program arguments' = .ok ending') (succeeded : ending.status ≠ 1)
    (succeeded' : ending'.status ≠ 1) : ending'.status = ending.status := by
  obtain ⟨input1, input2, equals, compared⟩ := compared_of_status parsed ended succeeded
  obtain ⟨input1', input2', equals', compared'⟩ := compared_of_status parsed' ended' succeeded'
  cases inputs.symm.trans compared.inputs
  cases inputs'.symm.trans compared'.inputs
  have ran' := compared'.ran
  rw [options] at ran'
  rw [compared.status, compared'.status,
    run_renumbered holds1 holds2 holds1' holds2' renumbered1 renumbered2 compared.ran ran']

/- Files with the records of a variable and its type, in different orders. -/

/-- An ELF file with a section for the bytes. -/
def btfFile (data : List UInt8) : Elf.Opened :=
  .opened {
    type := some Elf.relocatable
    sections := [⟨1, some ⟨1, 1, 0, data.length.toUInt64, 0⟩, none, some data⟩]
    shdrStrtabIndex := some 1
    string := fun _ _ => some ".BTF" }

theorem holdsRecords_encode (matches_ : env.elfVersionMatches = true)
    (held : env.elf file = btfFile (Btf.encode records)) (encodable : Btf.Encodable records)
    (enough : (Btf.encode records).length < fuel) : env.HoldsRecords fuel file records := by
  have acceptable := Btf.encode_acceptable encodable false
  have formed := Btf.encode_formed encodable
  refine ⟨Btf.encode records, ?_, enough, acceptable, formed.tiles⟩
  unfold Environment.btf
  rw [held, matches_]
  rfl

def pointerVariable : List Record :=
  [.symbol .object "v" 2, .ptr 3, .int "int" .signedInteger 32 4]

/-- The names in the other order, and a variable of another linkage. -/
def pointerVariableRelaid : List UInt8 :=
  Btf.assemble [5, 0x0e000000, 2, 0, 0, 0x02000000, 3, 1, 0x01000000, 4, 0x01000020]
    [0, 105, 110, 116, 0, 118, 0]

def pointerVariableBackwards : List Record :=
  [.int "int" .signedInteger 32 4, .ptr 1, .symbol .object "v" 2]

def intVariable : List Record := [.symbol .object "v" 2, .int "int" .signedInteger 32 4]

def recordFiles (pointer int : List UInt8) : Environment where
  xml _ := .error "No such file or directory"
  elf file := if file = "pointer.ko" then btfFile pointer else if file = "int.ko" then btfFile int else .unopened
  elfVersionMatches := true
  iteration := .inOrder
  writes _ _ := true

theorem pointerVariable_encodable : Btf.Encodable pointerVariable := by decide

theorem pointerVariableBackwards_encodable : Btf.Encodable pointerVariableBackwards := by decide

theorem intVariable_encodable : Btf.Encodable intVariable := by decide

theorem pointerVariableRelaid_sectioned : Sectioned pointerVariableRelaid pointerVariable := by
  have types : (Btf.headerAt pointerVariableRelaid).typeSection = ⟨24, 68⟩ := by decide +kernel
  have first : 24 + (Btf.typeAt pointerVariableRelaid 24).size = 40 := by decide +kernel
  have second : 40 + (Btf.typeAt pointerVariableRelaid 40).size = 52 := by decide +kernel
  have third : 52 + (Btf.typeAt pointerVariableRelaid 52).size = 68 := by decide +kernel
  unfold Sectioned
  rw [types]
  refine .cons (by decide +kernel) ?_
  rw [first]
  refine .cons (by decide +kernel) ?_
  rw [second]
  refine .cons (by decide +kernel) ?_
  rw [third]
  exact .nil 68

theorem pointerVariableRelaid_acceptable : Acceptable pointerVariableRelaid false := by
  have short : pointerVariableRelaid.length < 200 := by decide +kernel
  have returns : (made
    ((Btf.process pointerVariableRelaid 200 false).run { graph := ⟨[]⟩ })).isSome := by
    decide +kernel
  obtain ⟨⟨root, nodes⟩, ran⟩ := Option.isSome_iff_exists.mp returns
  obtain ⟨s, ran, _⟩ := returns_of_made ran
  exact (Btf.process_decides pointerVariableRelaid ⟨[]⟩ false short).returns_iff.mp ⟨root, s, ran⟩

theorem main_relaid_variables :
    main (recordFiles pointerVariableRelaid (Btf.encode intVariable)) 200 "stgdiff"
        ["--btf", "pointer.ko", "int.ko", "--output", "report"] =
      main (recordFiles (Btf.encode pointerVariable) (Btf.encode intVariable)) 200 "stgdiff"
        ["--btf", "pointer.ko", "int.ko", "--output", "report"] := by
  have parsed : processArguments ["--btf", "pointer.ko", "int.ko", "--output", "report"] = some {
      inputFormat := .btf
      inputs := [(.btf, "pointer.ko"), (.btf, "int.ko")]
      outputs := [(.plain, "report")] } := by decide
  have relaid : (recordFiles pointerVariableRelaid (Btf.encode intVariable)).HoldsRecords 200
      "pointer.ko"
      pointerVariable :=
    ⟨pointerVariableRelaid, rfl, by decide +kernel, pointerVariableRelaid_acceptable,
      pointerVariableRelaid_sectioned⟩
  have pointer : (recordFiles (Btf.encode pointerVariable)
    (Btf.encode intVariable)).HoldsRecords 200
      "pointer.ko" pointerVariable :=
    holdsRecords_encode rfl rfl pointerVariable_encodable (by decide +kernel)
  have int (pointer : List UInt8) :
      (recordFiles pointer (Btf.encode intVariable)).HoldsRecords 200 "int.ko" intVariable :=
    holdsRecords_encode rfl rfl intVariable_encodable (by decide +kernel)
  exact main_relaid parsed rfl pointer (int _) relaid (int _) rfl

theorem pointerVariable_renumbered :
    Renumbered (Equiv.swap 1 3) pointerVariable pointerVariableBackwards where
  zero := by decide
  each index := by
    by_cases after : 3 < index.toNat
    · have one : index ≠ 1 := by
        rintro rfl
        exact absurd after (by decide)
      have three : index ≠ 3 := by
        rintro rfl
        exact absurd after (by decide)
      rw [Equiv.swap_apply_of_ne_of_ne one three, @Btf.definition_none pointerVariable _ after,
        @Btf.definition_none pointerVariableBackwards _ after]
      rfl
    · have inside : index.toNat = 0 ∨ index.toNat = 1 ∨ index.toNat = 2 ∨
        index.toNat = 3 := by omega
      rcases inside with zero | one | two | three
      · obtain rfl : index = 0 := UInt32.toNat_inj.mp zero
        decide
      · obtain rfl : index = 1 := UInt32.toNat_inj.mp one
        decide
      · obtain rfl : index = 2 := UInt32.toNat_inj.mp two
        decide
      · obtain rfl : index = 3 := UInt32.toNat_inj.mp three
        decide

theorem main_renumbered_variables : ∃ ending ending',
    main (recordFiles (Btf.encode pointerVariable) (Btf.encode intVariable)) 200 "stgdiff"
      ["--btf", "pointer.ko", "int.ko"] = .ok ending ∧
    main (recordFiles (Btf.encode pointerVariableBackwards) (Btf.encode intVariable)) 200 "stgdiff"
      ["--btf", "pointer.ko", "int.ko"] = .ok ending' ∧
    ending'.status = ending.status := by
  have ended : main (recordFiles (Btf.encode pointerVariable) (Btf.encode intVariable))
      200 "stgdiff"
      ["--btf", "pointer.ko", "int.ko"] = .ok { status := 4 } :=
        ended_of_toOption (by decide +kernel)
  have ended' : main (recordFiles (Btf.encode pointerVariableBackwards) (Btf.encode intVariable))
      200 "stgdiff"
      ["--btf", "pointer.ko", "int.ko"] = .ok { status := 4 } :=
        ended_of_toOption (by decide +kernel)
  have parsed : processArguments ["--btf", "pointer.ko", "int.ko"] = some {
      inputFormat := .btf
      inputs := [(.btf, "pointer.ko"), (.btf, "int.ko")] } := by decide
  have pointer : (recordFiles (Btf.encode pointerVariable)
    (Btf.encode intVariable)).HoldsRecords 200
      "pointer.ko" pointerVariable :=
    holdsRecords_encode rfl rfl pointerVariable_encodable (by decide +kernel)
  have backwards : (recordFiles (Btf.encode pointerVariableBackwards)
    (Btf.encode intVariable)).HoldsRecords 200
      "pointer.ko" pointerVariableBackwards :=
    holdsRecords_encode rfl rfl pointerVariableBackwards_encodable (by decide +kernel)
  have int (pointer : List UInt8) :
      (recordFiles pointer (Btf.encode intVariable)).HoldsRecords 200 "int.ko" intVariable :=
    holdsRecords_encode rfl rfl intVariable_encodable (by decide +kernel)
  exact ⟨_, _, ended, ended', main_renumbered parsed parsed rfl rfl rfl pointer (int _)
    backwards (int _)
    pointerVariable_renumbered (.refl intVariable) ended ended' (by decide) (by decide)⟩

end Stgdiff

end Stg
