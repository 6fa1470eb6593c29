import Stg.Stgdiff
import Stg.Btf.Over
import Stg.Btf.Closed
import Stg.AbiXml.Over
import Stg.AbiXml.Corpora
import Stg.AbiXml.Group

set_option autoImplicit false

/- What reading an input gives does not depend on what was read before it, and refers to
itself only. -/
namespace Stg

open Relation (ReflTransGen)
open Relational (Lifting)

/-- A graph of its own: no node refers beyond it. -/
structure Graph.Whole (graph : Graph) (root : Id) : Prop where
  root : root.ix < graph.nodes.length
  bounded : ∀ id next, graph.Refers id next → next.ix < graph.nodes.length

theorem Graph.Whole.reached {graph : Graph} {root : Id} (whole : graph.Whole root) {id : Id}
    (reach : ReflTransGen graph.Refers root id) : id.ix < graph.nodes.length := by
  cases reach with
  | refl => exact whole.root
  | tail _ refers => exact whole.bounded _ _ refers

namespace AbiXml

/-- What the reader makes refers to what it makes. -/
theorem processRoot_whole {iteration : Iteration} {fuel : Nat} {document : Element} {root : Id}
    {s : Corpus} (accepted :
      (processRoot iteration fuel document).run { graph := ⟨[]⟩ } = .ok root s) :
    s.graph.Whole root := by
  obtain ⟨address, contents, place, _, placed, _, holds⟩ :=
    (processRoot_reads ⟨[]⟩ iteration fuel document).returns accepted
  have inRange : ∀ address, place address ≠ none →
      (place.at_ address).ix < s.graph.nodes.length := by
    intro address placed
    obtain ⟨id, held⟩ := Option.ne_none_iff_exists'.mp placed
    rw [Place.at_, held]
    exact (holds.new address id held).2
  refine ⟨(holds.new address root placed).2, ?_⟩
  rintro id next ⟨node, got, among⟩
  have set : s.cleared.graph.Is id := ⟨node, got⟩
  rcases holds.made id (Nat.zero_le _) set.lt with ⟨address, held⟩ |
    ⟨node', content, _, got', makes⟩
  · have slot : s.graph.nodes[id.ix]? = some _ := holds.slot address id held
    rw [Graph.get_eq_ok.mp got] at slot
    obtain ⟨content, said, rfl⟩ := Option.map_eq_some_iff.mp (Option.some.inj slot).symm
    rw [Content.node_references] at among
    obtain ⟨reference, mentioned, rfl⟩ := List.mem_map.mp among
    exact inRange reference (holds.closed address content said reference mentioned)
  · cases got.symm.trans got'
    rw [makes.node, Content.node_references] at among
    obtain ⟨reference, mentioned, rfl⟩ := List.mem_map.mp among
    exact inRange reference (makes.references reference mentioned)

end AbiXml

namespace Btf

variable {data : List UInt8} {base : Graph} {records : List Record} {root : Id}
  {linked s s' : Structs}

/-- More fuel does not change how the loop returns. -/
theorem buildRecords_more {strings : MemoryRange} {fuel fuel' : Nat} (enough : fuel ≤ fuel')
    {btfIndex : UInt32} {memory rest : MemoryRange}
    (ran : (buildRecords data strings fuel btfIndex memory).run s = .ok rest s') :
    (buildRecords data strings fuel' btfIndex memory).run s = .ok rest s' := by
  induction fuel generalizing fuel' btfIndex memory s with
  | zero => cases ran
  | succ fuel ih =>
    obtain ⟨fuel', rfl⟩ :=
      Nat.exists_eq_succ_of_ne_zero (Nat.ne_of_gt (Nat.lt_of_lt_of_le fuel.succ_pos enough))
    unfold buildRecords at ran ⊢
    split at ran
    · rename_i empty
      rwa [if_pos empty]
    · rename_i more
      rw [if_neg more]
      obtain ⟨⟨t, memory⟩, s1, pulled, ran⟩ := EStateM.ok_of_run_bind ran
      obtain ⟨memory, s2, built, ran⟩ := EStateM.ok_of_run_bind ran
      rw [EStateM.run_bind_of_ok pulled, EStateM.run_bind_of_ok built]
      exact ih (Nat.le_of_succ_le_succ enough) ran

theorem process_more {fuel fuel' : Nat} (enough : fuel ≤ fuel')
    (accepted : (process data fuel false).run s = .ok root s') :
    (process data fuel' false).run s = .ok root s' := by
  unfold process buildTypes at accepted ⊢
  obtain ⟨header, s1, read, accepted⟩ := EStateM.ok_of_run_bind accepted
  obtain ⟨_, s2, checked, accepted⟩ := EStateM.ok_of_run_bind accepted
  obtain ⟨root', s3, built, accepted⟩ := EStateM.ok_of_run_bind accepted
  obtain ⟨rest, s4, records, added⟩ := EStateM.ok_of_run_bind built
  rw [EStateM.run_bind_of_ok read, EStateM.run_bind_of_ok checked, bind_assoc,
    EStateM.run_bind_of_ok (buildRecords_more enough records), EStateM.run_bind_of_ok added]
  exact accepted

/-- What an index stands for has a slot. -/
theorem Finished.stands_lt (finished : Finished data base records linked root s)
    {index : UInt32} {id : Id}
    (stands : s.Stands index id) : id.ix < s.graph.nodes.length := by
  by_cases zero : index = 0
  · subst zero
    rcases stands with shared | shared
    · exact Graph.Is.lt ⟨_, finished.void_is shared⟩
    · exact Graph.Is.lt ⟨_, finished.variadic_is shared⟩
  · have slot := stands.slot zero
    rw [finished.lookup_eq.1] at slot
    have within := (finished.inv.slot index id slot).2.2
    rw [finished.graph_eq]
    exact Nat.lt_of_lt_of_le within (by simp)

theorem Finished.whole (finished : Finished data ⟨[]⟩ records linked root s) :
    s.graph.Whole root := by
  refine ⟨Graph.Is.lt ⟨_, finished.got_root⟩, ?_⟩
  rintro id next ⟨node, got, among⟩
  rcases finished.linkedByPosition.made id node (Nat.zero_le _) got with rfl | made
  · cases finished.got_root.symm.trans got
    obtain ⟨⟨key, symbol⟩, entry, rfl⟩ := List.mem_map.mp among
    obtain ⟨index, record, name, _, _, _, slot⟩ := (finished.named.entries key _).mp entry
    rw [← finished.lookup_eq.1] at slot
    have positive := (finished.inv.slot index _ (finished.lookup_eq.1 ▸ slot)).1
    exact finished.stands_lt (.inl ((Structs.denotes_positive positive).mpr slot))
  · cases made with
    | void => cases among
    | variadic => cases among
    | record defined slot =>
      obtain ⟨id', node', slot', _, got', describes⟩ := finished.linked_at defined
      cases slot.symm.trans slot'
      cases got.symm.trans got'
      rcases describes.references among with ⟨_, index, _, stands⟩ | ⟨raw, _, _, member, held, _⟩
      · exact finished.stands_lt stands
      · exact Graph.Is.lt ⟨member, held⟩
    | member _ described =>
      obtain ⟨typeId, denotes, rfl⟩ := described
      cases List.mem_singleton.mp among
      exact finished.stands_lt (.inl denotes)

theorem process_whole {fuel : Nat}
    (accepted : (process data fuel false).run { graph := ⟨[]⟩ } = .ok root s) :
    s.graph.Whole root := by
  have more := process_more (Nat.le_add_right fuel (data.length + 1)) accepted
  obtain ⟨records, linked, finished⟩ :=
    (process_ends data ⟨[]⟩ false
      (Nat.lt_of_lt_of_le (Nat.lt_succ_self _) (Nat.le_add_left _ fuel))).returns
      more
  exact finished.whole

theorem process_symbols {fuel : Nat}
    (accepted : (process data fuel false).run { graph := ⟨[]⟩ } = .ok root s) :
    ∃ symbols, s.graph.get root = .ok (.symbols symbols) := by
  have more := process_more (Nat.le_add_right fuel (data.length + 1)) accepted
  obtain ⟨records, linked, finished⟩ :=
    (process_ends data ⟨[]⟩ false
      (Nat.lt_of_lt_of_le (Nat.lt_succ_self _) (Nat.le_add_left _ fuel))).returns
      more
  exact ⟨_, finished.got_root⟩

end Btf

namespace AbiXml

theorem add_symbols {symbols : Symbols} {root : Id} {s s' : Corpus}
    (added : (add (.symbols symbols)).run s = .ok root s') :
    s'.graph.get root = .ok (.symbols symbols) := by
  rw [add_run] at added
  cases added
  exact Graph.get_eq_ok.mpr List.getElem?_concat_length

theorem processRoot_symbols {iteration : Iteration} {fuel : Nat} {document : Element} {root : Id}
    {s s' : Corpus} (accepted : (processRoot iteration fuel document).run s = .ok root s') :
    ∃ symbols, s'.graph.get root = .ok (.symbols symbols) := by
  unfold processRoot at accepted
  split at accepted
  · obtain ⟨symbols, _, _, added⟩ := EStateM.ok_of_run_bind accepted
    exact ⟨symbols, add_symbols added⟩
  · split at accepted
    · obtain ⟨_, _, _, accepted⟩ := EStateM.ok_of_run_bind accepted
      obtain ⟨symbols, _, _, added⟩ := EStateM.ok_of_run_bind accepted
      exact ⟨symbols, add_symbols added⟩
    · cases accepted

/-- The fuel is only for the text of an error. -/
theorem merge_more {fuel fuel' : Nat} {path : String} {corpusSymbols : List (String × Id)}
    {symbols merged : Symbols} (made : merge fuel path corpusSymbols symbols = .ok merged) :
    merge fuel' path corpusSymbols symbols = .ok merged := by
  induction corpusSymbols generalizing symbols with
  | nil => exact made
  | cons symbol corpusSymbols ih =>
    obtain ⟨name, id⟩ := symbol
    unfold merge at made ⊢
    dsimp only at made ⊢
    split at made
    · obtain ⟨_, _, raised⟩ := bind_eq_ok made
      cases raised
    · rename_i fresh
      rw [if_neg fresh]
      exact ih made

theorem processCorpora_more {iteration : Iteration} {fuel fuel' : Nat} {children : List Element}
    {symbols merged : Symbols} {s s' : Corpus}
    (ran : (processCorpora iteration fuel children symbols).run s = .ok merged s') :
    (processCorpora iteration fuel' children symbols).run s = .ok merged s' := by
  induction children generalizing symbols s with
  | nil => exact ran
  | cons child rest ih =>
    unfold processCorpora at ran ⊢
    obtain ⟨_, s1, named, ran⟩ := EStateM.ok_of_run_bind ran
    obtain ⟨path, s2, pathed, ran⟩ := EStateM.ok_of_run_bind ran
    obtain ⟨corpusSymbols, s3, processed, ran⟩ := EStateM.ok_of_run_bind ran
    obtain ⟨joined, s4, merges, later⟩ := EStateM.ok_of_run_bind ran
    obtain ⟨made, rfl⟩ := ofExcept_run merges
    rw [EStateM.run_bind_of_ok named, EStateM.run_bind_of_ok pathed,
      EStateM.run_bind_of_ok processed,
      merge_more made, ofExcept_ok, pure_bind]
    exact ih later

theorem processRoot_more {iteration : Iteration} {fuel fuel' : Nat} {document : Element} {root : Id}
    {s s' : Corpus} (ran : (processRoot iteration fuel document).run s = .ok root s') :
    (processRoot iteration fuel' document).run s = .ok root s' := by
  unfold processRoot at ran ⊢
  split at ran
  · rename_i group
    rw [if_pos group]
    obtain ⟨symbols, s1, processed, ran⟩ := EStateM.ok_of_run_bind ran
    rw [EStateM.run_bind_of_ok (processCorpora_more processed)]
    exact ran
  · rename_i notGroup
    rw [if_neg notGroup]
    split at ran
    · rename_i corpus
      rw [if_pos corpus]
      obtain ⟨corpusSymbols, s1, processed, ran⟩ := EStateM.ok_of_run_bind ran
      obtain ⟨symbols, s2, merges, added⟩ := EStateM.ok_of_run_bind ran
      obtain ⟨made, rfl⟩ := ofExcept_run merges
      rw [EStateM.run_bind_of_ok processed, merge_more made, ofExcept_ok, pure_bind]
      exact added
    · cases ran

end AbiXml

namespace Stgdiff

variable {env : Environment} {fuel : Nat}

/-- The root and the graph that an input by itself gives. -/
def Environment.reads (env : Environment) (fuel : Nat) (input : InputFormat × String) :
    Except Error (Id × Graph) :=
  readInput env fuel ⟨[]⟩ input

theorem readAbi_over (env : Environment) (fuel : Nat) (base : Graph) (filename : String) :
    readAbi env fuel base filename =
      (readAbi env fuel ⟨[]⟩ filename).map fun out => (base.beyond out.1, base.beneath out.2) := by
  simp only [readAbi]
  split
  · rfl
  · rfl
  · rfl
  · rename_i root _
    have both := @AbiXml.processRoot_over base env.iteration fuel root { graph := ⟨[]⟩ } _ rfl
    have start : AbiXml.Corpus.beneath base { graph := ⟨[]⟩ } = { graph := base } := by
      simp [AbiXml.Corpus.beneath]
    rw [start] at both
    revert both
    cases (AbiXml.processRoot env.iteration fuel root).run { graph := ⟨[]⟩ } <;>
      cases (AbiXml.processRoot env.iteration fuel root).run { graph := base } <;> intro both
    · obtain ⟨rfl, rfl⟩ := both
      rfl
    · exact both.elim
    · exact both.elim
    · obtain ⟨rfl, _⟩ := both
      rfl

theorem readBtf_over (env : Environment) (fuel : Nat) (base : Graph) (filename : String) :
    readBtf env fuel base filename =
      (readBtf env fuel ⟨[]⟩ filename).map fun out => (base.beyond out.1, base.beneath out.2) := by
  simp only [readBtf, bind, Except.bind]
  cases Elf.load env.elfVersionMatches filename (env.elf filename) with
  | error => rfl
  | ok elf =>
    dsimp only
    cases elf.getBtfRawData with
    | error => rfl
    | ok data =>
      have both := @Btf.process_over base data fuel false { graph := ⟨[]⟩ } _ rfl
      have start : Btf.Structs.beneath base { graph := ⟨[]⟩ } = { graph := base } := by
        simp [Btf.Structs.beneath, Symbols.rename, Symbols.empty]
      rw [start] at both
      revert both
      dsimp only
      cases (Btf.process data fuel false).run { graph := ⟨[]⟩ } <;>
        cases (Btf.process data fuel false).run { graph := base } <;> intro both
      · obtain ⟨rfl, rfl⟩ := both
        rfl
      · exact both.elim
      · exact both.elim
      · obtain ⟨rfl, _⟩ := both
        rfl

theorem readElf_over (env : Environment) (base : Graph) (filename : String) :
    readElf env base filename =
      (readElf env ⟨[]⟩ filename).map fun out => (base.beyond out.1, base.beneath out.2) := by
  simp only [readElf, bind, Except.bind]
  cases Elf.load env.elfVersionMatches filename (env.elf filename) with
  | error => rfl
  | ok elf =>
    simp only [Elf.read, bind, Except.bind]
    cases elf.getElfSymbols with
    | error => rfl
    | ok symbols =>
      have added := base.over_add ⟨[]⟩ (.symbols .empty)
      rw [Graph.over_empty] at added
      exact added

/-- What is read after a graph is what is read by itself, in new slots. -/
theorem readInput_over (env : Environment) (fuel : Nat) (base : Graph)
    (input : InputFormat × String) :
    readInput env fuel base input =
      (env.reads fuel input).map fun out => (base.beyond out.1, base.beneath out.2) := by
  obtain ⟨format, filename⟩ := input
  cases format with
  | abi => exact readAbi_over env fuel base filename
  | btf => exact readBtf_over env fuel base filename
  | elf => exact readElf_over env base filename

theorem reads_whole {input : InputFormat × String} {root : Id} {graph : Graph}
    (reads : env.reads fuel input = .ok (root, graph)) : graph.Whole root := by
  obtain ⟨format, filename⟩ := input
  cases format with
  | abi =>
    simp only [Environment.reads, readInput, readAbi] at reads
    split at reads
    · cases reads
    · cases reads
    · cases reads
    · split at reads
      · rename_i accepted
        cases reads
        exact AbiXml.processRoot_whole accepted
      · cases reads
  | btf =>
    obtain ⟨elf, _, reads⟩ := bind_eq_ok reads
    obtain ⟨data, _, reads⟩ := bind_eq_ok reads
    split at reads
    · rename_i accepted
      cases reads
      exact Btf.process_whole accepted
    · cases reads
  | elf =>
    obtain ⟨elf, _, reads⟩ := bind_eq_ok reads
    obtain ⟨_, _, reads⟩ := bind_eq_ok reads
    rw [Graph.add_eq] at reads
    cases reads
    refine ⟨Nat.zero_lt_one, ?_⟩
    rintro id next ⟨node, got, among⟩
    have slot := Graph.get_eq_ok.mp got
    obtain ⟨_, held⟩ := List.getElem?_eq_some_iff.mp slot
    obtain ⟨ix⟩ := id
    cases ix with
    | zero =>
      cases held
      cases among
    | succ ix => cases slot

/-- The root of an input is a table of symbols. -/
theorem reads_symbols {input : InputFormat × String} {root : Id} {graph : Graph}
    (reads : env.reads fuel input = .ok (root, graph)) :
    ∃ symbols, graph.get root = .ok (.symbols symbols) := by
  obtain ⟨format, filename⟩ := input
  cases format with
  | abi =>
    simp only [Environment.reads, readInput, readAbi] at reads
    split at reads
    · cases reads
    · cases reads
    · cases reads
    · split at reads
      · rename_i accepted
        cases reads
        exact AbiXml.processRoot_symbols accepted
      · cases reads
  | btf =>
    obtain ⟨elf, _, reads⟩ := bind_eq_ok reads
    obtain ⟨data, _, reads⟩ := bind_eq_ok reads
    split at reads
    · rename_i accepted
      cases reads
      exact Btf.process_symbols accepted
    · cases reads
  | elf =>
    obtain ⟨elf, _, reads⟩ := bind_eq_ok reads
    obtain ⟨_, _, reads⟩ := bind_eq_ok reads
    rw [Graph.add_eq] at reads
    cases reads
    exact ⟨.empty, rfl⟩

/-- More fuel does not change what is read. -/
theorem reads_more {fuel' : Nat} (enough : fuel ≤ fuel') {input : InputFormat × String}
    {out : Id × Graph}
    (reads : env.reads fuel input = .ok out) : env.reads fuel' input = .ok out := by
  obtain ⟨format, filename⟩ := input
  unfold Environment.reads at reads ⊢
  cases format with
  | abi =>
    simp only [readInput, readAbi] at reads ⊢
    split at reads
    · cases reads
    · cases reads
    · cases reads
    · split at reads
      · rename_i accepted
        rw [AbiXml.processRoot_more accepted]
        exact reads
      · cases reads
  | btf =>
    obtain ⟨elf, loaded, reads⟩ := bind_eq_ok reads
    obtain ⟨data, found, reads⟩ := bind_eq_ok reads
    simp only [readInput, readBtf, loaded, bind, Except.bind, found]
    split at reads
    · rename_i accepted
      rw [Btf.process_more enough accepted]
      exact reads
    · cases reads
  | elf => exact reads

theorem reads_unique {fuel' : Nat} {input : InputFormat × String} {out out' : Id × Graph}
    (reads : env.reads fuel input = .ok out) (reads' : env.reads fuel' input = .ok out') :
    out = out' := by
  have one := reads_more (Nat.le_max_left fuel fuel') reads
  have two := reads_more (Nat.le_max_right fuel fuel') reads'
  exact Except.ok.inj (one.symm.trans two)

/-- The second input follows the first. -/
theorem readInputs_pair (env : Environment) (fuel : Nat) (input1 input2 : InputFormat × String) :
    readInputs env fuel [input1, input2] ⟨[]⟩ = (do
      let (root1, graph1) ← env.reads fuel input1
      let (root2, graph2) ← env.reads fuel input2
      return ([root1, graph1.beyond root2], graph1.beneath graph2)) := by
  simp only [readInputs]
  rw [show readInput env fuel ⟨[]⟩ input1 = env.reads fuel input1 from rfl]
  cases env.reads fuel input1 with
  | error => rfl
  | ok out =>
    obtain ⟨root1, graph1⟩ := out
    simp only [bind, Except.bind]
    rw [readInput_over]
    cases env.reads fuel input2 <;> rfl

end Stgdiff

/-- Graphs one after the other in the slots that follow those of the first, with the
roots under their new ids. -/
def Graph.follow (base : Graph) : List (Id × Graph) → List Id × Graph
  | [] => ([], base)
  | (root, graph) :: rest =>
    let (roots, last) := (base.beneath graph).follow rest
    (base.beyond root :: roots, last)

namespace Stgdiff

/-- Inputs that are read into one graph give what each of them gives by itself, or the
error of the first that gives one. -/
theorem readInputs_apart (env : Environment) (fuel : Nat) (inputs : Inputs) (base : Graph) :
    readInputs env fuel inputs base = (inputs.mapM (env.reads fuel)).map base.follow := by
  induction inputs generalizing base with
  | nil => rfl
  | cons input inputs ih =>
    rw [readInputs, readInput_over, List.mapM_cons]
    cases env.reads fuel input with
    | error => rfl
    | ok out =>
      obtain ⟨root, graph⟩ := out
      simp only [Except.map, bind, Except.bind, ih]
      cases inputs.mapM (env.reads fuel) <;> rfl

end Stgdiff

end Stg
