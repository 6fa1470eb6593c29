import Stg.Runs
import Stg.Arguments

set_option autoImplicit false

/- What the exit status of the program depends on. -/
namespace Stg.Stgdiff

variable {env env' : Environment} {fuel fuel' : Nat} {program : String}
  {arguments arguments' : List String}
  {settings settings' : Settings} {ending ending' : Ending}

def status (equals : Bool) : Nat := if equals then 0 else abiChange

theorem status_injective {equals equals' : Bool} (same : status equals' = status equals) :
    equals' = equals := by
  revert same
  revert equals equals'
  decide

/-- The inputs have been compared and the reports have been written. -/
structure Compared (env : Environment) (fuel : Nat) (settings : Settings) (ending : Ending)
    (input1 input2 : InputFormat × String) (equals : Bool) : Prop where
  inputs : settings.inputs = [input1, input2]
  ran : (run env fuel [input1, input2] settings.outputs settings.compareOptions).run [] =
    .ok equals ending.written
  status : ending.status = status equals

/-- The status is 1 unless the inputs have been compared. -/
theorem compared_of_status (parsed : processArguments arguments = some settings)
    (ended : main env fuel program arguments = .ok ending) (succeeded : ending.status ≠ 1) :
    ∃ input1 input2 equals, Compared env fuel settings ending input1 input2 equals := by
  unfold main at ended
  rw [parsed] at ended
  dsimp only at ended
  split at ended
  · cases ended
    exact absurd rfl succeeded
  · rename_i two
    obtain ⟨input1, input2, inputs⟩ := List.length_eq_two.mp (not_not.mp two)
    rw [inputs] at ended
    split at ended
    · rename_i equals written ran
      cases ended
      exact ⟨input1, input2, equals, inputs, ran, rfl⟩
    · cases ended
      exact absurd rfl succeeded
    · cases ended

theorem parsed_of_status (ended : main env fuel program arguments = .ok ending)
    (succeeded : ending.status ≠ 1) : ∃ settings, processArguments arguments = some settings := by
  unfold main at ended
  split at ended
  · cases ended
    exact absurd rfl succeeded
  · rename_i settings parsed
    exact ⟨settings, parsed⟩

section Files

open AbiXml

/-- Two files with the same variable in another order, and one with a variable of another
type. -/
def variableFiles : Environment where
  xml file :=
    if file = "forwards.xml" then .ok (some (some (variableOf "p" pointerToInt)))
    else if file = "backwards.xml" then .ok (some (some pointerToIntBackwards))
    else if file = "int.xml" then .ok (some (some (variableOf "i" pointerToInt)))
    else .error "No such file or directory"
  elf _ := .unopened
  elfVersionMatches := true
  iteration := .inOrder
  writes _ _ := true

theorem ended_of_toOption {result : Except Error Ending} (ended : result.toOption = some ending) :
    result = .ok ending := by
  cases result with
  | error => cases ended
  | ok given =>
    cases ended
    rfl

theorem returns_of_isOk {α : Type} {result : Except Error α} (returns : result.isOk = true) :
    ∃ value, result = .ok value := by
  cases result with
  | error => cases returns
  | ok value => exact ⟨value, rfl⟩

theorem variableFiles_reordered :
    FilesReordered variableFiles variableFiles "forwards.xml" "backwards.xml"
      (variableOf "p" pointerToInt) pointerToIntBackwards where
  xml := rfl
  xml' := rfl
  reordered := ⟨rfl, fun _ => pointerToInt_backwards, fun group => absurd group (by decide)⟩
  single := ⟨fun _ => by decide +kernel, fun group => absurd group (by decide)⟩

end Files

/-- The exit status does not depend on which of the two inputs comes first. -/
theorem main_swapped (parsed : processArguments arguments = some settings)
    (parsed' : processArguments arguments' = some settings')
    (inputs : settings'.inputs = settings.inputs.reverse)
    (options : settings'.compareOptions = settings.compareOptions)
    (ended : main env fuel program arguments = .ok ending)
    (ended' : main env fuel' program arguments' = .ok ending') (succeeded : ending.status ≠ 1)
    (succeeded' : ending'.status ≠ 1) : ending'.status = ending.status := by
  obtain ⟨input1, input2, equals, compared⟩ := compared_of_status parsed ended succeeded
  obtain ⟨input2', input1', equals', compared'⟩ := compared_of_status parsed' ended' succeeded'
  have reversed := compared'.inputs
  rw [inputs, compared.inputs] at reversed
  cases reversed
  have ran' := compared'.ran
  rw [options] at ran'
  rw [compared.status, compared'.status, run_swapped compared.ran ran']

theorem main_swapped_variables : ∃ ending ending',
    main variableFiles 20 "stgdiff" ["forwards.xml", "int.xml"] = .ok ending ∧
    main variableFiles 20 "stgdiff" ["int.xml", "forwards.xml"] = .ok ending' ∧
    ending'.status = ending.status := by
  have ended : main variableFiles 20 "stgdiff" ["forwards.xml", "int.xml"] = .ok { status := 4 } :=
    ended_of_toOption (by decide +kernel)
  have ended' : main variableFiles 20 "stgdiff" ["int.xml", "forwards.xml"] = .ok { status := 4 } :=
    ended_of_toOption (by decide +kernel)
  have parsed : processArguments ["forwards.xml", "int.xml"] =
      some { inputs := [(.abi, "forwards.xml"), (.abi, "int.xml")] } := by decide
  have parsed' : processArguments ["int.xml", "forwards.xml"] =
      some { inputs := [(.abi, "int.xml"), (.abi, "forwards.xml")] } := by decide
  exact ⟨_, _, ended, ended',
    main_swapped parsed parsed' rfl rfl ended ended' (by decide) (by decide)⟩

/-- A further compare option does not make a difference where there was none. -/
theorem main_options {text : String} (ended : main env fuel program arguments = .ok ending)
    (equal : ending.status = 0)
    (ended' : main env fuel' program ("--compare-options" :: text :: arguments) = .ok ending') :
    ending'.status ≠ abiChange := by
  intro changed
  obtain ⟨settings, parsed⟩ := parsed_of_status ended (by rw [equal]; decide)
  obtain ⟨settings', parsed'⟩ := parsed_of_status ended' (by rw [changed]; decide)
  have ignores := processArguments_option parsed parsed'
  obtain ⟨input1, input2, equals, compared⟩ :=
    compared_of_status parsed ended (by rw [equal]; decide)
  obtain ⟨input1', input2', equals', compared'⟩ :=
    compared_of_status parsed' ended' (by rw [changed]; decide)
  have inputs := compared'.inputs
  rw [ignores.inputs, compared.inputs] at inputs
  cases inputs
  obtain rfl : equals = true := status_injective (compared.status.symm.trans equal)
  have still := run_options ignores.options compared.ran compared'.ran
  rw [compared'.status, still] at changed
  exact absurd changed (by decide)

theorem main_options_variables : ∃ ending ending',
    main variableFiles 20 "stgdiff" ["forwards.xml", "backwards.xml"] = .ok ending ∧
    main variableFiles 20 "stgdiff" ["--compare-options", "all", "forwards.xml", "backwards.xml"] =
      .ok ending' ∧
    ending'.status ≠ abiChange := by
  have ended : main variableFiles 20 "stgdiff" ["forwards.xml", "backwards.xml"] = .ok
      { status := 0 } :=
    ended_of_toOption (by decide +kernel)
  have ended' : main variableFiles 20 "stgdiff"
      ["--compare-options", "all", "forwards.xml", "backwards.xml"] = .ok { status := 0 } :=
    ended_of_toOption (by decide +kernel)
  exact ⟨_, _, ended, ended', main_options ended rfl ended'⟩

/-- A file compared with itself, or with a file that holds the same document in another
order, is found the same, and every output is left empty. -/
theorem main_same {input1 input2 : InputFormat × String} (parsed : processArguments arguments = some settings)
    (inputs : settings.inputs = [input1, input2]) (alike : ReadsAlike env env fuel input1 input2)
    (ended : main env fuel program arguments = .ok ending) (succeeded : ending.status ≠ 1) :
    ending.status = 0 ∧ ending.written = settings.outputs.map fun output => (output.2, "") := by
  obtain ⟨input1', input2', equals, compared⟩ := compared_of_status parsed ended succeeded
  have same := compared.inputs
  rw [inputs] at same
  cases same
  obtain ⟨rfl, written⟩ := run_alike_equal alike compared.ran
  exact ⟨compared.status, written⟩

theorem main_same_variables : ∃ ending,
    main variableFiles 20 "stgdiff" ["forwards.xml", "--output", "report", "backwards.xml"] = .ok ending ∧
    ending.status = 0 ∧ ending.written = [("report", "")] := by
  have ended : main variableFiles 20 "stgdiff"
      ["forwards.xml", "--output", "report", "backwards.xml"] =
      .ok { status := 0, written := [("report", "")] } := ended_of_toOption (by decide +kernel)
  have parsed : processArguments ["forwards.xml", "--output", "report", "backwards.xml"] = some {
      inputs := [(.abi, "forwards.xml"), (.abi, "backwards.xml")]
      outputs := [(.plain, "report")] } := by decide
  exact ⟨_, ended, main_same parsed rfl (variableFiles_reordered.readsAlike 20) ended (by decide)⟩

/-- With the same arguments the program does the same on files that hold the same
documents in another order, whatever the order in which unordered maps are gone through:
it writes the same texts to the same files, and ends in the same way. -/
theorem main_reordered {file1 file2 : String} {document1 document1' document2 document2' : AbiXml.Element}
    (parsed : processArguments arguments = some settings)
    (inputs : settings.inputs = [(.abi, file1), (.abi, file2)])
    (files1 : FilesReordered env env' file1 file1 document1 document1')
    (files2 : FilesReordered env env' file2 file2 document2 document2')
    (writes : env'.writes = env.writes) {out1 out2 : Id × Graph}
    (reads1 : env.reads fuel (.abi, file1) = .ok out1) (reads2 : env.reads fuel (.abi, file2) = .ok out2) :
    main env' fuel program arguments = main env fuel program arguments := by
  have same (options : CompareOptions) :
      run env' fuel [(.abi, file1), (.abi, file2)] settings.outputs options =
      run env fuel [(.abi, file1), (.abi, file2)] settings.outputs options :=
    run_alike writes (files1.readsAlike fuel)
      (files2.readsAlike fuel) reads1 reads2 settings.outputs
  unfold main
  rw [parsed]
  dsimp only
  rw [inputs, same]

/-- The same files, of which one holds its declarations backwards. -/
def reorderedFiles : Environment where
  xml file :=
    if file = "forwards.xml" then .ok (some (some AbiXml.pointerToIntBackwards))
    else variableFiles.xml file
  elf := variableFiles.elf
  elfVersionMatches := true
  iteration := .inOrder
  writes := variableFiles.writes

theorem main_reordered_variables :
    main reorderedFiles 20 "stgdiff" ["forwards.xml", "int.xml", "--format", "viz", "--output", "report"] =
      main variableFiles 20 "stgdiff" ["forwards.xml", "int.xml", "--format", "viz", "--output", "report"] := by
  have parsed : processArguments
      ["forwards.xml", "int.xml", "--format", "viz", "--output", "report"] =
      some {
        inputs := [(.abi, "forwards.xml"), (.abi, "int.xml")]
        outputFormat := .viz
        outputs := [(.viz, "report")] } := by decide
  have forwards : FilesReordered variableFiles reorderedFiles "forwards.xml" "forwards.xml" _ _ :=
    { variableFiles_reordered with xml' := rfl }
  have unchanged : FilesReordered variableFiles reorderedFiles "int.xml" "int.xml"
      (AbiXml.variableOf "i" AbiXml.pointerToInt) (AbiXml.variableOf "i" AbiXml.pointerToInt) := by
    refine ⟨rfl, rfl, ⟨rfl, fun _ => ⟨rfl, rfl, .cons _ (.cons _ .nil)⟩, ?_⟩, ⟨fun _ => ?_, ?_⟩⟩
    · exact fun group => absurd group (by decide)
    · decide +kernel
    · exact fun group => absurd group (by decide)
  obtain ⟨out1, reads1⟩ : ∃ out, variableFiles.reads 20 (.abi, "forwards.xml") = .ok out :=
    returns_of_isOk (by decide +kernel)
  obtain ⟨out2, reads2⟩ : ∃ out, variableFiles.reads 20 (.abi, "int.xml") = .ok out :=
    returns_of_isOk (by decide +kernel)
  exact main_reordered parsed rfl forwards unchanged rfl reads1 reads2

end Stg.Stgdiff
