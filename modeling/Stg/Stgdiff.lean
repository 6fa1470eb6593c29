import Stg.Output
import Stg.Compare
import Stg.AbiXml.Reader
import Stg.Btf.Reader
import Stg.Elf.Loader

set_option autoImplicit false

/- The program `stgdiff`, without the times that it can print. -/
namespace Stg.Stgdiff

open AbiXml (Element Iteration)
open Getline (getlines)

inductive InputFormat where
  | abi
  | btf
  | elf
  deriving DecidableEq, Repr

abbrev Inputs := List (InputFormat × String)

abbrev Outputs := List (OutputFormat × String)

def abiChange : Nat := 4

def maxCRCOnlyChanges : Nat := 3

def allCompareOptionsEnabled : CompareOptions := ⟨true, true⟩

/-- The files that the program is run with, through the libraries that open and parse
them, and the order in which the reader of ABI XML goes through an unordered map. -/
structure Environment where
  /-- The text of the error if the file cannot be opened, else the document if it is
  parsed, with its root element if it has one. -/
  xml : String → Except String (Option (Option Element))
  elf : String → Elf.Opened
  elfVersionMatches : Bool
  iteration : Iteration
  /-- Whether the text can be written to the file. -/
  writes : String → String → Bool

/- The readers. Each returns the root that it has added to the graph. -/

/-- `abixml::Read`. -/
def readAbi (env : Environment) (fuel : Nat) (graph : Graph) (path : String) :
    Except Error (Id × Graph) :=
  match env.xml path with
  | .error reason => die ("could not open '" ++ path ++ "' for reading: " ++ reason)
  | .ok none => die "failed to parse input as XML"
  | .ok (some none) => die "XML document has no root element"
  | .ok (some (some root)) =>
    match (AbiXml.processRoot env.iteration fuel root).run { graph } with
    | .ok id s => return (id, s.graph)
    | .error reason _ => throw reason

/-- `btf::ReadFile`. -/
def readBtf (env : Environment) (fuel : Nat) (graph : Graph) (path : String) :
    Except Error (Id × Graph) := do
  let elf ← Elf.load env.elfVersionMatches path (env.elf path)
  let data ← elf.getBtfRawData
  match (Btf.process data fuel false).run { graph } with
  | .ok id s => return (id, s.graph)
  | .error reason _ => throw reason

/-- `elf::Read`. -/
def readElf (env : Environment) (graph : Graph) (path : String) : Except Error (Id × Graph) := do
  let elf ← Elf.load env.elfVersionMatches path (env.elf path)
  Elf.read graph elf

def readInput (env : Environment) (fuel : Nat) (graph : Graph) :
    InputFormat × String → Except Error (Id × Graph)
  | (.abi, filename) => readAbi env fuel graph filename
  | (.btf, filename) => readBtf env fuel graph filename
  | (.elf, filename) => readElf env graph filename

def readInputs (env : Environment) (fuel : Nat) : Inputs → Graph → Except Error (List Id × Graph)
  | [], graph => return ([], graph)
  | input :: inputs, graph => do
    let (root, graph) ← readInput env fuel graph input
    let (roots, graph) ← readInputs env fuel inputs graph
    return (root :: roots, graph)

/- The run, over the files that have been written and their texts. -/

abbrev Running := EStateM Error (List (String × String))

/-- Without a comparison the output is left empty. -/
def reportDiffs (graph : Graph) (outcomes : Outcomes) (fuel : Nat) (comparison : Option Comparison)
    (format : OutputFormat) : NameM String :=
  match comparison with
  | none => return ""
  | some comparison => report graph outcomes ⟨format, maxCRCOnlyChanges⟩ fuel comparison

/-- The reports share a cache of names. -/
def writeReports (env : Environment) (graph : Graph) (outcomes : Outcomes) (fuel : Nat)
    (comparison : Option Comparison) : Outputs → NameCache → Running Unit
  | [], _ => return ()
  | (format, filename) :: outputs, names => do
    let (text, names) ← ofExcept ((reportDiffs graph outcomes fuel comparison format).run names)
    check (env.writes filename text) ("error writing to '" ++ filename ++ "'")
    modify fun written => written ++ [(filename, text)]
    writeReports env graph outcomes fuel comparison outputs names

/-- `Empty`, as it is computed. -/
def sccEmpty {ν : Type} [DecidableEq ν] (scc : Scc ν) : Bool :=
  scc.open_.isEmpty && scc.isOpen.keys.isEmpty && scc.rootIndex.isEmpty

def run (env : Environment) (fuel : Nat) (inputs : Inputs) (outputs : Outputs)
    (compareOptions : CompareOptions) : Running Bool := do
  let (roots, graph) ← ofExcept (readInputs env fuel inputs ⟨[]⟩)
  let root1 ← deref roots[0]?
  let root2 ← deref roots[1]?
  let ((equals, comparison), state) ← ofExcept (runCompare graph compareOptions fuel {} root1 root2)
  check (sccEmpty state.scc) "internal error: SCC state broken"
  writeReports env graph state.outcomes fuel comparison outputs ∅
  return equals

/- The arguments. -/

def parseCompareOption (options : CompareOptions) (option : String) : Option CompareOptions :=
  if option = "ignore_symbol_type_presence_changes" then
    some { options with ignoreSymbolTypePresenceChanges := true }
  else if option = "ignore_type_declaration_status_changes" then
    some { options with ignoreTypeDeclarationStatusChanges := true }
  else if option = "all" then some allCompareOptionsEnabled
  else none

def parseCompareOptions (optsArg : String) (options : CompareOptions) : Option CompareOptions :=
  (getlines ',' [] optsArg.toList).foldlM parseCompareOption options

def parseOutputFormat (argument : String) : Option OutputFormat :=
  if argument = "plain" then some .plain
  else if argument = "flat" then some .flat
  else if argument = "small" then some .small
  else if argument = "short" then some .short
  else if argument = "viz" then some .viz
  else none

/-- What `getopt_long` returns: the character of an option with its argument, if it takes
one, or an argument that is no option. -/
inductive Event where
  | option (c : Char) (argument : String)
  | nonOption (argument : String)
  | unknown
  deriving DecidableEq, Repr

structure LongOption where
  name : String
  hasArgument : Bool
  value : Char

def opts : List LongOption := [
  ⟨"times", false, 't'⟩,
  ⟨"abi", false, 'a'⟩,
  ⟨"btf", false, 'b'⟩,
  ⟨"elf", false, 'e'⟩,
  ⟨"compare-options", true, 'c'⟩,
  ⟨"format", true, 'f'⟩,
  ⟨"output", true, 'o'⟩]

/-- The options of the string `-tabec:f:o:`, and whether they take an argument. -/
def shortOption? (c : Char) : Option Bool :=
  if c = 't' ∨ c = 'a' ∨ c = 'b' ∨ c = 'e' then some false
  else if c = 'c' ∨ c = 'f' ∨ c = 'o' then some true
  else none

/-- The events of an argument, and the option that takes the next argument. -/
abbrev Scanned := List Event × Option Char

/-- A long option can be abbreviated as long as it is the only one. -/
def longOption? (name : List Char) : Option LongOption :=
  match opts.find? fun option => option.name.toList == name with
  | some option => some option
  | none =>
    match opts.filter fun option => name.isPrefixOf option.name.toList with
    | [option] => some option
    | _ => none

def scanLong (text : List Char) : Scanned :=
  let name := text.takeWhile (· ≠ '=')
  match longOption? name, text.drop name.length with
  | none, _ => ([.unknown], none)
  | some option, [] =>
    if option.hasArgument then ([], some option.value) else ([.option option.value ""], none)
  | some option, _ :: value =>
    if option.hasArgument then ([.option option.value (String.ofList value)], none)
    else ([.unknown], none)

def scanShort : List Char → Scanned
  | [] => ([], none)
  | c :: text =>
    match shortOption? c with
    | none => (.unknown :: (scanShort text).1, (scanShort text).2)
    | some false => (.option c "" :: (scanShort text).1, (scanShort text).2)
    | some true => if text = [] then ([], some c) else ([.option c (String.ofList text)], none)

def scan (argument : String) : Scanned :=
  match argument.toList with
  | '-' :: '-' :: text => scanLong text
  | '-' :: c :: text => scanShort (c :: text)
  | _ => ([.nonOption argument], none)

/-- `getopt_long`, given the option that waits for its argument. -/
def getoptLong : Option Char → List String → List Event
  | none, [] => []
  | some _, [] => [.unknown]
  | some c, argument :: arguments => .option c argument :: getoptLong none arguments
  | none, argument :: arguments =>
    if argument = "--" then []
    else (scan argument).1 ++ getoptLong (scan argument).2 arguments

structure Settings where
  times : Bool := false
  compareOptions : CompareOptions := {}
  inputFormat : InputFormat := .abi
  outputFormat : OutputFormat := .plain
  inputs : Inputs := []
  outputs : Outputs := []
  deriving DecidableEq, Repr

/-- The body of the loop over the arguments; `none` stands for the usage. -/
def Settings.process (settings : Settings) : Event → Option Settings
  | .option 't' _ => some { settings with times := true }
  | .option 'a' _ => some { settings with inputFormat := .abi }
  | .option 'b' _ => some { settings with inputFormat := .btf }
  | .option 'e' _ => some { settings with inputFormat := .elf }
  | .nonOption argument =>
    some { settings with inputs := settings.inputs ++ [(settings.inputFormat, argument)] }
  | .option 'c' argument => do
    let compareOptions ← parseCompareOptions argument settings.compareOptions
    return { settings with compareOptions }
  | .option 'f' argument => do
    let outputFormat ← parseOutputFormat argument
    return { settings with outputFormat }
  | .option 'o' argument =>
    let argument := if argument = "-" then "/dev/stdout" else argument
    some { settings with outputs := settings.outputs ++ [(settings.outputFormat, argument)] }
  | _ => none

def processArguments (arguments : List String) : Option Settings :=
  (getoptLong none arguments).foldlM Settings.process {}

def usage (program : String) : String :=
  "usage: " ++ program ++ "\n" ++
  " [-t|--times]\n" ++
  " [-a|--abi|-b|--btf|-e|--elf] file1\n" ++
  " [-a|--abi|-b|--btf|-e|--elf] file2\n" ++
  " [\x7b-c|--compare-options\x7d \x7bignore_symbol_type_presence_changes|" ++
    "ignore_type_declaration_status_changes|all\x7d]\n" ++
  " [\x7b-f|--format\x7d \x7bplain|flat|small|short|viz\x7d]\n" ++
  " [\x7b-o|--output\x7d \x7bfilename|-\x7d] ...\n" ++
  "   implicit defaults: --abi --format plain\n" ++
  "   format and output can appear multiple times\n" ++
  "   multiple comma separated compare-options can be passed\n" ++
  "\n"

/-- The exit status, what is written to the standard error, and the files that are
written. -/
structure Ending where
  status : Nat
  stderr : String := ""
  written : List (String × String) := []
  deriving DecidableEq, Repr

/-- Errors that are no `stg::Exception` are not caught. -/
def main (env : Environment) (fuel : Nat) (program : String) (arguments : List String) :
    Except Error Ending :=
  match processArguments arguments with
  | none => return { status := 1, stderr := usage program }
  | some settings =>
    if settings.inputs.length ≠ 2 then return { status := 1, stderr := usage program }
    else
      match (run env fuel settings.inputs settings.outputs settings.compareOptions).run [] with
      | .ok equals written => return { status := if equals then 0 else abiChange, written }
      | .error (.exception message) written =>
        return { status := 1, stderr := message ++ "\n", written }
      | .error reason _ => throw reason

end Stg.Stgdiff
