import Stg.Stgdiff
import Stg.Options

set_option autoImplicit false

/- Command lines that say what is to be compared, what is to be ignored and what is to be
written, in any order. -/
namespace Stg.Stgdiff

open Getline (getlines)

/-- What a compare option asks for. -/
inductive Ignored where
  | symbolTypePresenceChanges
  | typeDeclarationStatusChanges
  | all
  deriving DecidableEq, Repr

def Ignored.name : Ignored → String
  | symbolTypePresenceChanges => "ignore_symbol_type_presence_changes"
  | typeDeclarationStatusChanges => "ignore_type_declaration_status_changes"
  | all => "all"

def Ignored.set (options : CompareOptions) : Ignored → CompareOptions
  | symbolTypePresenceChanges => { options with ignoreSymbolTypePresenceChanges := true }
  | typeDeclarationStatusChanges => { options with ignoreTypeDeclarationStatusChanges := true }
  | all => ⟨true, true⟩

def outputName : OutputFormat → String
  | .plain => "plain"
  | .flat => "flat"
  | .small => "small"
  | .short => "short"
  | .viz => "viz"

/-- An option without an argument. -/
inductive Flag where
  | times
  | input (format : InputFormat)
  deriving DecidableEq, Repr

def Flag.char : Flag → Char
  | times => 't'
  | input .abi => 'a'
  | input .btf => 'b'
  | input .elf => 'e'

/-- An option with an argument. -/
inductive Given where
  | ignore (ignored : List Ignored)
  | format (format : OutputFormat)
  | output (file : String)
  deriving DecidableEq, Repr

namespace Given

def char : Given → Char
  | ignore _ => 'c'
  | format _ => 'f'
  | output _ => 'o'

/-- The names of the options with commas between them. -/
def ignoredText (ignored : List Ignored) : String :=
  String.ofList (List.intercalate [','] (ignored.map fun option => option.name.toList))

def argument : Given → String
  | ignore ignored => ignoredText ignored
  | .format asked => outputName asked
  | output file => file

end Given

/-- What the loop over the arguments does in one turn. -/
inductive Step where
  | flag (flag : Flag)
  | given (given : Given)
  | file (file : String)
  deriving DecidableEq, Repr

namespace Step

def event : Step → Event
  | .flag option => .option option.char ""
  | .given option => .option option.char option.argument
  | .file name => .nonOption name

def settle (settings : Settings) : Step → Settings
  | flag .times => { settings with times := true }
  | flag (.input format) => { settings with inputFormat := format }
  | given (.ignore ignored) => { settings with
      compareOptions := ignored.foldl Ignored.set settings.compareOptions }
  | given (.format format) => { settings with outputFormat := format }
  | given (.output name) => { settings with
      outputs := settings.outputs ++
        [(settings.outputFormat, if name = "-" then "/dev/stdout" else name)] }
  | .file name => { settings with inputs := settings.inputs ++ [(settings.inputFormat, name)] }

end Step

/-- A name of the long option with this character, which may be cut short if no other has
the same beginning. -/
def Abbreviates (name : String) (c : Char) : Prop :=
  (∃ option ∈ opts, option.value = c ∧ name.toList <+: option.name.toList) ∧
    ∀ other ∈ opts, name.toList <+: other.name.toList → other.value = c

instance (name : String) (c : Char) : Decidable (Abbreviates name c) :=
  inferInstanceAs (Decidable
    ((∃ option ∈ opts, option.value = c ∧ name.toList <+: option.name.toList) ∧
    ∀ other ∈ opts, name.toList <+: other.name.toList → other.value = c))

/-- One or two arguments as they are written. -/
inductive Word where
  /-- `-tb` -/
  | short (first : Flag) (flags : List Flag)
  /-- `-tfplain` -/
  | shortAttached (flags : List Flag) (given : Given)
  /-- `-tf plain` -/
  | shortSeparate (flags : List Flag) (given : Given)
  /-- `--times` -/
  | long (name : String) (flag : Flag)
  /-- `--format=plain` -/
  | longAttached (name : String) (given : Given)
  /-- `--format plain` -/
  | longSeparate (name : String) (given : Given)
  | file (file : String)
  deriving DecidableEq, Repr

namespace Word

/-- A cluster of short options. -/
def cluster (flags : List Flag) (text : List Char) : String :=
  String.ofList ('-' :: (flags.map Flag.char ++ text))

def render : Word → List String
  | short first flags => [cluster (first :: flags) []]
  | shortAttached flags given => [cluster flags (given.char :: given.argument.toList)]
  | shortSeparate flags given => [cluster flags [given.char], given.argument]
  | long name _ => ["--" ++ name]
  | longAttached name given => ["--" ++ name ++ "=" ++ given.argument]
  | longSeparate name given => ["--" ++ name, given.argument]
  | .file name => [name]

def steps : Word → List Step
  | short first flags => (first :: flags).map .flag
  | shortAttached flags given | shortSeparate flags given => flags.map .flag ++ [.given given]
  | long _ flag => [.flag flag]
  | longAttached _ given | longSeparate _ given => [.given given]
  | .file name => [.file name]

/-- An attached argument is not empty, long names are understood, and the name of an input
does not look like an option. -/
def Valid : Word → Prop
  | short _ _ | shortSeparate _ _ => True
  | shortAttached _ given => given.argument ≠ ""
  | long name flag => Abbreviates name flag.char
  | longAttached name given | longSeparate name given => Abbreviates name given.char
  | .file name => ∀ c text, name.toList ≠ '-' :: c :: text

end Word

/-- What one part of a command line asks for. -/
inductive Directive where
  | times
  | input (format : InputFormat) (file : String)
  | output (format : OutputFormat) (file : String)
  | ignore (ignored : List Ignored)
  deriving DecidableEq, Repr

namespace Directive

/-- What the loop over the arguments has to do. -/
def steps : Directive → List Step
  | times => [.flag .times]
  | input format file => [.flag (.input format), .file file]
  | output format file => [.given (.format format), .given (.output file)]
  | ignore ignored => [.given (.ignore ignored)]

/-- What the arguments are to be taken as. -/
def settle (settings : Settings) : Directive → Settings
  | times => { settings with times := true }
  | input format file =>
    { settings with inputFormat := format, inputs := settings.inputs ++ [(format, file)] }
  | output format file => { settings with
      outputFormat := format
      outputs := settings.outputs ++ [(format, if file = "-" then "/dev/stdout" else file)] }
  | ignore ignored => { settings with
      compareOptions := ignored.foldl Ignored.set settings.compareOptions }

def input? : Directive → Option (InputFormat × String)
  | input format file => some (format, file)
  | _ => none

def output? : Directive → Option (OutputFormat × String)
  | output format file => some (format, if file = "-" then "/dev/stdout" else file)
  | _ => none

/-- The compare options that are given. -/
def ignored : Directive → List Ignored
  | ignore ignored => ignored
  | _ => []

end Directive

section CompareOptions

theorem parseCompareOption_name (options : CompareOptions) (ignored : Ignored) :
    parseCompareOption options ignored.name = some (ignored.set options) := by
  cases ignored <;> rfl

theorem parseCompareOptions_ignored (ignored : List Ignored) (options : CompareOptions) :
    parseCompareOptions (Given.ignoredText ignored) options = some
      (ignored.foldl Ignored.set options) := by
  have clean : ∀ own ∈ ignored.map (fun option => option.name.toList), ',' ∉ own ∧ own ≠ [] := by
    intro own among
    obtain ⟨option, _, rfl⟩ := List.mem_map.mp among
    cases option <;> decide
  have items := Getline.getlines_intercalate clean
  rw [List.map_map] at items
  unfold parseCompareOptions Given.ignoredText
  rw [String.toList_ofList, items]
  clear clean items
  induction ignored generalizing options with
  | nil => rfl
  | cons option ignored ih =>
    have first : parseCompareOption options (String.ofList option.name.toList) = some
        (option.set options) := by
      rw [String.ofList_toList, parseCompareOption_name]
    rw [List.map_cons, List.foldlM_cons, Function.comp_apply, first]
    exact ih _

/-- An option is on if it was or if it is asked for. -/
theorem foldl_set (ignored : List Ignored) (options : CompareOptions) :
    ((ignored.foldl Ignored.set options).ignoreSymbolTypePresenceChanges = true ↔
      options.ignoreSymbolTypePresenceChanges = true ∨
        ∃ option ∈ ignored, option ≠ .typeDeclarationStatusChanges) ∧
    ((ignored.foldl Ignored.set options).ignoreTypeDeclarationStatusChanges = true ↔
      options.ignoreTypeDeclarationStatusChanges = true ∨
        ∃ option ∈ ignored, option ≠ .symbolTypePresenceChanges) := by
  induction ignored generalizing options with
  | nil => simp
  | cons option ignored ih =>
    rw [List.foldl_cons, (ih _).1, (ih _).2]
    cases option <;> simp [Ignored.set]

/-- Options are only ever switched on. -/
theorem parseCompareOptions_within {text : String} {options options' : CompareOptions}
    (parsed : parseCompareOptions text options = some options') : options.Within options' := by
  unfold parseCompareOptions at parsed
  generalize getlines ',' [] text.toList = items at parsed
  induction items generalizing options with
  | nil =>
    cases parsed
    exact ⟨id, id⟩
  | cons item items ih =>
    rw [List.foldlM_cons] at parsed
    obtain ⟨middle, first, rest⟩ := Option.bind_eq_some_iff.mp parsed
    have later := ih rest
    have within : options.Within middle := by
      unfold parseCompareOption at first
      split at first
      · cases first
        exact ⟨fun _ => rfl, id⟩
      split at first
      · cases first
        exact ⟨id, fun _ => rfl⟩
      split at first
      · cases first
        exact ⟨fun _ => rfl, fun _ => rfl⟩
      · cases first
    exact ⟨fun on => later.symbolTypePresence (within.symbolTypePresence on),
      fun on => later.typeDeclarationStatus (within.typeDeclarationStatus on)⟩

theorem parseCompareOption_mono {option : String} {options options' : CompareOptions}
    {parsed : CompareOptions} (within : options.Within options')
    (parses : parseCompareOption options option = some parsed) :
    ∃ parsed', parseCompareOption options' option = some parsed' ∧ parsed.Within parsed' := by
  unfold parseCompareOption at parses ⊢
  by_cases presence : option = "ignore_symbol_type_presence_changes"
  · rw [if_pos presence] at parses ⊢
    cases parses
    exact ⟨_, rfl, fun _ => rfl, within.typeDeclarationStatus⟩
  rw [if_neg presence] at parses ⊢
  by_cases status : option = "ignore_type_declaration_status_changes"
  · rw [if_pos status] at parses ⊢
    cases parses
    exact ⟨_, rfl, within.symbolTypePresence, fun _ => rfl⟩
  rw [if_neg status] at parses ⊢
  by_cases all : option = "all"
  · rw [if_pos all] at parses ⊢
    cases parses
    exact ⟨_, rfl, fun _ => rfl, fun _ => rfl⟩
  · rw [if_neg all] at parses
    cases parses

theorem parseCompareOptions_mono {text : String} {options options' parsed : CompareOptions}
    (within : options.Within options') (parses : parseCompareOptions text options = some parsed) :
    ∃ parsed', parseCompareOptions text options' = some parsed' ∧ parsed.Within parsed' := by
  unfold parseCompareOptions at parses ⊢
  generalize getlines ',' [] text.toList = items at parses ⊢
  induction items generalizing options options' with
  | nil =>
    cases parses
    exact ⟨options', rfl, within⟩
  | cons item items ih =>
    rw [List.foldlM_cons] at parses
    obtain ⟨middle, first, rest⟩ := Option.bind_eq_some_iff.mp parses
    obtain ⟨middle', first', within'⟩ := parseCompareOption_mono within first
    obtain ⟨parsed', rest', later⟩ := ih within' rest
    refine ⟨parsed', ?_, later⟩
    rw [List.foldlM_cons, first']
    exact rest'

end CompareOptions

section Getopt

theorem scan_file {file : String} (plain : ∀ c text, file.toList ≠ '-' :: c :: text) :
    scan file = ([.nonOption file], none) := by
  unfold scan
  split
  · rename_i text held
    exact absurd held (plain '-' text)
  · rename_i c text _ held
    exact absurd held (plain c text)
  · rfl

theorem getoptLong_flag {flag : String} {events : List Event} (other : flag ≠ "--")
    (scanned : scan flag = (events, none)) (arguments : List String) :
    getoptLong none (flag :: arguments) = events ++ getoptLong none arguments := by
  rw [getoptLong, if_neg other, scanned]

theorem getoptLong_option {flag : String} {c : Char} (other : flag ≠ "--")
    (scanned : scan flag = ([], some c)) (argument : String) (arguments : List String) :
    getoptLong none (flag :: argument :: arguments) = .option c argument :: getoptLong none
      arguments := by
  rw [getoptLong, if_neg other, scanned, getoptLong]
  rfl

theorem getoptLong_file {file : String} (plain : ∀ c text, file.toList ≠ '-' :: c :: text)
    (arguments : List String) :
    getoptLong none (file :: arguments) = .nonOption file :: getoptLong none arguments := by
  have other : file ≠ "--" := by
    rintro rfl
    exact plain '-' [] rfl
  exact getoptLong_flag other (scan_file plain) arguments

theorem parseOutputFormat_name (format : OutputFormat) :
    parseOutputFormat (outputName format) = some format := by
  cases format <;> rfl

theorem shortOption_flag (flag : Flag) : shortOption? flag.char = some false := by
  rcases flag with _ | _ | _ | _ <;> rfl

theorem Given.char_ne (given : Given) : given.char ≠ '-' := by
  cases given <;> simp [char]

theorem shortOption_given (given : Given) : shortOption? given.char = some true := by
  cases given <;> rfl

/-- A cluster begins with its flags. -/
theorem scanShort_flags (flags : List Flag) (text : List Char) :
    scanShort (flags.map Flag.char ++ text) =
      (flags.map (fun flag => (Step.flag flag).event) ++ (scanShort text).1,
        (scanShort text).2) := by
  induction flags with
  | nil => rfl
  | cons flag flags ih =>
    rw [List.map_cons, List.cons_append, scanShort, shortOption_flag, ih]
    simp only [List.map_cons, List.cons_append, Step.event]

theorem scanShort_attached (given : Given) (attached : given.argument ≠ "") :
    scanShort (given.char :: given.argument.toList) = ([(Step.given given).event], none) := by
  have nonempty : given.argument.toList ≠ [] := fun empty =>
    attached (String.toList_eq_nil_iff.mp empty)
  rw [scanShort, shortOption_given]
  simp only [if_neg nonempty, String.ofList_toList, Step.event]

theorem scanShort_separate (given : Given) : scanShort [given.char] = ([], some given.char) := by
  rw [scanShort, shortOption_given]
  rfl

/-- A cluster with anything in it is no separator. -/
theorem cluster_scanned (flags : List Flag) (text : List Char)
    (nonempty : flags.map Flag.char ++ text ≠ []) (options : ∀ c ∈ text.head?, c ≠ '-') :
    Word.cluster flags text ≠ "--" ∧
      scan (Word.cluster flags text) = scanShort (flags.map Flag.char ++ text) := by
  obtain ⟨c, rest, held⟩ := List.exists_cons_of_ne_nil nonempty
  have other : c ≠ '-' := by
    cases flags with
    | nil =>
      rw [List.map_nil, List.nil_append] at held
      exact options c (by rw [held]; rfl)
    | cons flag flags =>
      obtain rfl : flag.char = c := (List.cons.inj held).1
      rcases flag with _ | _ | _ | _ <;> decide
  have shown : (Word.cluster flags text).toList = '-' :: c :: rest := by
    rw [Word.cluster, String.toList_ofList, held]
  constructor
  · intro same
    have lists : '-' :: c :: rest = ['-', '-'] := shown.symm.trans (congrArg String.toList same)
    exact other (List.cons.inj (List.cons.inj lists).2).1
  · unfold scan
    rw [shown, held]
    split
    · rename_i same
      exact absurd (List.cons.inj (List.cons.inj same).2).1 other
    · rename_i same
      cases same
      rfl
    · rename_i apart
      exact absurd rfl (apart c rest)

theorem hasArgument_eq :
    ∀ option ∈ opts, option.hasArgument = (shortOption? option.value == some true) := by
  decide

theorem no_equals : ∀ option ∈ opts, '=' ∉ option.name.toList := by
  decide

/-- The values of the long options are different. -/
theorem opts_unique : opts.Pairwise fun option other => option.value ≠ other.value := by
  decide

theorem opts_of_value {option other : LongOption} (among : option ∈ opts) (among' : other ∈ opts)
    (same : option.value = other.value) : option = other := by
  by_contra apart
  have symmetric : Std.Symm fun option other : LongOption => option.value ≠ other.value :=
    ⟨fun _ _ => Ne.symm⟩
  exact opts_unique.forall among among' apart same

/-- The options that a name may stand for are one only. -/
theorem filter_abbreviates {name : String} {option : LongOption} (among : option ∈ opts)
    (begins : name.toList <+: option.name.toList)
    (only : ∀ other ∈ opts, name.toList <+: other.name.toList → other.value = option.value) :
    opts.filter (fun other => name.toList.isPrefixOf other.name.toList) = [option] := by
  have all : ∀ other ∈ opts.filter (fun other => name.toList.isPrefixOf other.name.toList),
      other = option := by
    intro other kept
    obtain ⟨among', begins'⟩ := List.mem_filter.mp kept
    exact opts_of_value among' among (only other among' (List.isPrefixOf_iff_prefix.mp begins'))
  have present : option ∈ opts.filter fun other => name.toList.isPrefixOf other.name.toList :=
    List.mem_filter.mpr ⟨among, List.isPrefixOf_iff_prefix.mpr begins⟩
  have apart : opts.Nodup := opts_unique.imp fun differ same => differ (congrArg _ same)
  have replicated := List.eq_replicate_of_mem all
  have single := apart.filter fun other => name.toList.isPrefixOf other.name.toList
  rw [replicated, List.nodup_replicate] at single
  rw [replicated] at present ⊢
  have some_ := (List.mem_replicate.mp present).1
  rw [show (opts.filter fun other => name.toList.isPrefixOf other.name.toList).length = 1 by omega]
  rfl

theorem longOption_abbreviates {name : String} {c : Char} (abbreviates : Abbreviates name c) :
    ∃ option, longOption? name.toList = some option ∧ option.value = c ∧
      option.hasArgument = (shortOption? c == some true) ∧ '=' ∉ name.toList ∧
        name.toList ≠ [] := by
  obtain ⟨⟨option, among, rfl, begins⟩, only⟩ := abbreviates
  refine ⟨option, ?_, rfl, hasArgument_eq option among,
    fun inside => no_equals option among (begins.subset inside), ?_⟩
  · unfold longOption?
    split
    · rename_i other found
      obtain ⟨same, among'⟩ := And.intro (List.find?_some found) (List.mem_of_find?_eq_some found)
      have begins' : name.toList <+: other.name.toList := by
        rw [eq_of_beq same]
      rw [opts_of_value among' among (only other among' begins')]
    · rw [filter_abbreviates among begins only]
  · intro empty
    rw [empty] at only
    have first := only ⟨"times", false, 't'⟩ (by simp [opts]) List.nil_prefix
    have second := only ⟨"abi", false, 'a'⟩ (by simp [opts]) List.nil_prefix
    exact absurd (first.trans second.symm) (by decide)

/-- The name of a long option ends before a sign of equality. -/
theorem takeWhile_name {name : String} {text : List Char} (plain : '=' ∉ name.toList)
    (begins : ∀ c ∈ text.head?, c = '=') :
    (name.toList ++ text).takeWhile (· ≠ '=') = name.toList := by
  have inside : ∀ c ∈ name.toList, decide (c ≠ '=') = true := by
    intro c among
    exact decide_eq_true fun same => plain (same ▸ among)
  rw [List.takeWhile_append_of_pos inside]
  cases text with
  | nil => rw [List.takeWhile_nil, List.append_nil]
  | cons c text =>
    obtain rfl := begins c rfl
    rw [List.takeWhile_cons_of_neg (by decide), List.append_nil]

/-- A long option, with what comes after its name. -/
theorem scan_long {flag name : String} {c : Char} (abbreviates : Abbreviates name c)
    {text : List Char} (shown : flag.toList = '-' :: '-' :: (name.toList ++ text))
    (begins : ∀ d ∈ text.head?, d = '=') :
    flag ≠ "--" ∧ ∃ option : LongOption, option.value = c ∧
      option.hasArgument = (shortOption? c == some true) ∧
      scan flag = match text with
        | [] => if option.hasArgument then ([], some c) else ([.option c ""], none)
        | _ :: value =>
          if option.hasArgument then ([.option c (String.ofList value)], none) else
            ([.unknown], none) := by
  obtain ⟨option, found, rfl, takes, plain, nonempty⟩ := longOption_abbreviates abbreviates
  refine ⟨?_, option, rfl, takes, ?_⟩
  · rintro rfl
    have none_ : [] = name.toList ++ text := (List.cons.inj (List.cons.inj shown).2).2
    exact nonempty (List.append_eq_nil_iff.mp none_.symm).1
  · have scanned : scan flag = scanLong (name.toList ++ text) := by
      unfold scan
      rw [shown]
      rfl
    rw [scanned]
    simp only [scanLong, takeWhile_name plain begins, found, List.drop_left]
    cases text <;> rfl

theorem toList_long (name : String) :
    ("--" ++ name).toList = '-' :: '-' :: (name.toList ++ []) := by
  rw [String.toList_append, List.append_nil]
  rfl

/-- The events of a word are those of the turns it stands for. -/
theorem getoptLong_render {word : Word} (valid : word.Valid) (arguments : List String) :
    getoptLong none (word.render ++ arguments) =
      word.steps.map Step.event ++ getoptLong none arguments := by
  cases word with
  | short first flags =>
    have scanned := cluster_scanned (first :: flags) [] (List.cons_ne_nil _ _) nofun
    rw [scanShort_flags] at scanned
    rw [Word.render, List.singleton_append, getoptLong_flag scanned.1 scanned.2]
    simp [Word.steps, scanShort, Function.comp_def]
  | shortAttached flags given =>
    have scanned := cluster_scanned flags (given.char :: given.argument.toList)
      (by simp) (by simpa using given.char_ne)
    rw [scanShort_flags, scanShort_attached given valid] at scanned
    rw [Word.render, List.singleton_append, getoptLong_flag scanned.1 scanned.2]
    simp [Word.steps, Function.comp_def]
  | shortSeparate flags given =>
    have scanned := cluster_scanned flags [given.char]
      (by simp) (by simpa using given.char_ne)
    rw [scanShort_flags, scanShort_separate] at scanned
    rw [Word.render, List.cons_append, List.singleton_append, getoptLong,
      if_neg scanned.1, scanned.2,
      getoptLong]
    simp [Word.steps, Step.event, Function.comp_def]
  | long name flag =>
    obtain ⟨other, option, _, takes, scanned⟩ := scan_long valid (toList_long name) nofun
    have alone : option.hasArgument = false := by rw [takes, shortOption_flag]; rfl
    rw [alone] at scanned
    exact getoptLong_flag other scanned arguments
  | longAttached name given =>
    have shown : ("--" ++ name ++ "=" ++ given.argument).toList =
        '-' :: '-' :: (name.toList ++ '=' :: given.argument.toList) := by
      simp only [String.toList_append, List.append_assoc]
      rfl
    obtain ⟨other, option, _, takes, scanned⟩ := scan_long valid shown (by simp)
    have taking : option.hasArgument = true := by rw [takes, shortOption_given]; rfl
    simp only [taking, if_true, String.ofList_toList] at scanned
    exact getoptLong_flag other scanned arguments
  | longSeparate name given =>
    obtain ⟨other, option, _, takes, scanned⟩ := scan_long valid (toList_long name) nofun
    have taking : option.hasArgument = true := by rw [takes, shortOption_given]; rfl
    rw [taking] at scanned
    exact getoptLong_option other scanned _ arguments
  | file file => exact getoptLong_file valid arguments

theorem process_event (settings : Settings) (step : Step) :
    settings.process step.event = some (step.settle settings) := by
  cases step with
  | flag flag => rcases flag with _ | _ | _ | _ <;> rfl
  | file file => rfl
  | given given =>
    cases given with
    | output file => rfl
    | ignore ignored =>
      change (parseCompareOptions (Given.ignoredText ignored) settings.compareOptions >>= _) = _
      rw [parseCompareOptions_ignored]
      rfl
    | format format =>
      change (parseOutputFormat (outputName format) >>= _) = _
      rw [parseOutputFormat_name]
      rfl

end Getopt

/-- Arguments do to the settings what they say. -/
theorem processArguments_words {words : List Word} (valid : ∀ word ∈ words, word.Valid) :
    processArguments (words.flatMap Word.render) =
      some ((words.flatMap Word.steps).foldl Step.settle {}) := by
  have events : getoptLong none (words.flatMap Word.render) =
      (words.flatMap Word.steps).map Step.event := by
    induction words with
    | nil => rfl
    | cons word words ih =>
      obtain ⟨first, rest⟩ := List.forall_mem_cons.mp valid
      rw [List.flatMap_cons, getoptLong_render first, ih rest, List.flatMap_cons, List.map_append]
  have processed : ∀ (steps : List Step) (settings : Settings),
      (steps.map Step.event).foldlM Settings.process settings =
        some (steps.foldl Step.settle settings) := by
    intro steps settings
    induction steps generalizing settings with
    | nil => rfl
    | cons step steps ih =>
      rw [List.map_cons, List.foldlM_cons, process_event]
      exact ih _
  rw [processArguments, events]
  exact processed _ _

/-- The settings ask for the same, and ignore no less. -/
structure Settings.Ignores (settings settings' : Settings) : Prop where
  inputs : settings'.inputs = settings.inputs
  outputs : settings'.outputs = settings.outputs
  times : settings'.times = settings.times
  inputFormat : settings'.inputFormat = settings.inputFormat
  outputFormat : settings'.outputFormat = settings.outputFormat
  options : settings.compareOptions.Within settings'.compareOptions

theorem Settings.Ignores.process {settings settings' processed : Settings}
    (ignores : settings.Ignores settings') {event : Event}
    (processes : settings.process event = some processed) :
    ∃ processed', settings'.process event = some processed' ∧ processed.Ignores processed' := by
  obtain ⟨inputs, outputs, times, inputFormat, outputFormat, options⟩ := ignores
  unfold Settings.process at processes ⊢
  split at processes
  · cases processes
    exact ⟨_, rfl, inputs, outputs, rfl, inputFormat, outputFormat, options⟩
  · cases processes
    exact ⟨_, rfl, inputs, outputs, times, rfl, outputFormat, options⟩
  · cases processes
    exact ⟨_, rfl, inputs, outputs, times, rfl, outputFormat, options⟩
  · cases processes
    exact ⟨_, rfl, inputs, outputs, times, rfl, outputFormat, options⟩
  · cases processes
    refine ⟨_, rfl, ?_, outputs, times, inputFormat, outputFormat, options⟩
    rw [inputs, inputFormat]
  · obtain ⟨parsed, parses, last⟩ := Option.bind_eq_some_iff.mp processes
    cases last
    obtain ⟨parsed', parses', within⟩ := parseCompareOptions_mono options parses
    exact ⟨_, Option.bind_eq_some_iff.mpr ⟨parsed', parses', rfl⟩,
      inputs, outputs, times, inputFormat, outputFormat, within⟩
  · obtain ⟨parsed, parses, last⟩ := Option.bind_eq_some_iff.mp processes
    cases last
    exact ⟨_, Option.bind_eq_some_iff.mpr ⟨parsed, parses, rfl⟩,
      inputs, outputs, times, inputFormat, rfl, options⟩
  · cases processes
    refine ⟨_, rfl, inputs, ?_, times, inputFormat, outputFormat, options⟩
    rw [outputs, outputFormat]
  · cases processes

theorem Settings.Ignores.foldlM {settings settings' processed : Settings}
    (ignores : settings.Ignores settings') {events : List Event}
    (processes : events.foldlM Settings.process settings = some processed) :
    ∃ processed', events.foldlM Settings.process settings' = some processed' ∧
      processed.Ignores processed' := by
  induction events generalizing settings settings' with
  | nil =>
    cases processes
    exact ⟨settings', rfl, ignores⟩
  | cons event events ih =>
    rw [List.foldlM_cons] at processes
    obtain ⟨middle, first, rest⟩ := Option.bind_eq_some_iff.mp processes
    obtain ⟨middle', first', ignores'⟩ := ignores.process first
    obtain ⟨processed', rest', later⟩ := ih ignores' rest
    refine ⟨processed', ?_, later⟩
    rw [List.foldlM_cons, first']
    exact rest'

/-- A further compare option in front adds to what is ignored and changes nothing else,
if it is understood. -/
theorem processArguments_option {text : String} {arguments : List String}
    {settings settings' : Settings}
    (parsed : processArguments arguments = some settings)
    (parsed' : processArguments ("--compare-options" :: text :: arguments) = some settings') :
    settings.Ignores settings' := by
  unfold processArguments at parsed parsed'
  have optioned : getoptLong none ("--compare-options" :: text :: arguments) =
      .option 'c' text :: getoptLong none arguments :=
    getoptLong_option (by decide) (by decide) _ _
  rw [optioned, List.foldlM_cons] at parsed'
  obtain ⟨first, processed, rest⟩ := Option.bind_eq_some_iff.mp parsed'
  obtain ⟨options, parses, last⟩ := Option.bind_eq_some_iff.mp processed
  cases last
  have within : ({} : CompareOptions).Within options := parseCompareOptions_within parses
  have ignores : ({} : Settings).Ignores { compareOptions := options } :=
    ⟨rfl, rfl, rfl, rfl, rfl, within⟩
  obtain ⟨settings'', rest', ignores'⟩ := ignores.foldlM parsed
  cases rest.symm.trans rest'
  exact ignores'

theorem settle_parts (directives : List Directive) (settings : Settings) :
    (directives.foldl Directive.settle settings).times =
      (settings.times || decide (.times ∈ directives)) ∧
    (directives.foldl Directive.settle settings).inputs =
      settings.inputs ++ directives.filterMap Directive.input? ∧
    (directives.foldl Directive.settle settings).outputs =
      settings.outputs ++ directives.filterMap Directive.output? ∧
    (directives.foldl Directive.settle settings).compareOptions =
      (directives.flatMap Directive.ignored).foldl Ignored.set settings.compareOptions := by
  induction directives generalizing settings with
  | nil => simp
  | cons directive directives ih =>
    obtain ⟨times, inputs, outputs, options⟩ := ih (directive.settle settings)
    rw [List.foldl_cons, times, inputs, outputs, options]
    cases directive <;>
      simp [Directive.settle, Directive.input?, Directive.output?, Directive.ignored,
        List.filterMap_cons]

theorem exists_ignored {directives : List Directive} {asked : Ignored → Prop} :
    (∃ option ∈ directives.flatMap Directive.ignored, asked option) ↔
      ∃ directive ∈ directives, ∃ option ∈ directive.ignored, asked option := by
  constructor
  · rintro ⟨option, among, holds⟩
    obtain ⟨directive, given, among⟩ := List.mem_flatMap.mp among
    exact ⟨directive, given, option, among, holds⟩
  · rintro ⟨directive, given, option, among, holds⟩
    exact ⟨option, List.mem_flatMap.mpr ⟨directive, given, among⟩, holds⟩

/-- The turns of the loop that a directive asks for. -/
theorem foldl_steps (directives : List Directive) (settings : Settings) :
    (directives.flatMap Directive.steps).foldl Step.settle settings =
      directives.foldl Directive.settle settings := by
  induction directives generalizing settings with
  | nil => rfl
  | cons directive directives ih =>
    rw [List.flatMap_cons, List.foldl_append, ih, List.foldl_cons]
    cases directive <;> rfl

/-- However directives are written as arguments, they are understood: the settings are those
that the directives give one after the other. The inputs and the outputs are those that are
asked for, in their order and each in its own format, and a change is ignored if any
directive says so. -/
theorem processArguments_directives {directives : List Directive} {words : List Word}
    (valid : ∀ word ∈ words, word.Valid)
    (asks : words.flatMap Word.steps = directives.flatMap Directive.steps) :
    ∃ settings, processArguments (words.flatMap Word.render) = some settings ∧
      settings = directives.foldl Directive.settle {} ∧
      settings.times = decide (.times ∈ directives) ∧
      settings.inputs = directives.filterMap Directive.input? ∧
      settings.outputs = directives.filterMap Directive.output? ∧
      (settings.compareOptions.ignoreSymbolTypePresenceChanges = true ↔
        ∃ directive ∈ directives, ∃ option ∈ directive.ignored, option ≠ .typeDeclarationStatusChanges) ∧
      (settings.compareOptions.ignoreTypeDeclarationStatusChanges = true ↔
        ∃ directive ∈ directives, ∃ option ∈ directive.ignored, option ≠ .symbolTypePresenceChanges) := by
  obtain ⟨times, inputs, outputs, options⟩ := settle_parts directives {}
  obtain ⟨presence, status⟩ := foldl_set (directives.flatMap Directive.ignored) {}
  have parsed := processArguments_words valid
  rw [asks, foldl_steps] at parsed
  refine ⟨_, parsed, rfl, ?_, inputs, outputs, ?_, ?_⟩
  · rw [times]
    exact Bool.false_or _
  · rw [options, presence, ← exists_ignored]
    exact or_iff_right Bool.false_ne_true
  · rw [options, status, ← exists_ignored]
    exact or_iff_right Bool.false_ne_true

/-- Compare options that are abbreviated, a cluster, and attached and separate arguments. -/
theorem processArguments_directives_mixed : ∃ settings,
    processArguments ["--compare=ignore_type_declaration_status_changes", "-tb", "a", "-fsmall",
      "--output", "-", "--abi", "b"] = some settings ∧ settings.times = true ∧
    settings.inputs = [(.btf, "a"), (.abi, "b")] ∧ settings.outputs = [(.small, "/dev/stdout")] ∧
    settings.compareOptions.ignoreTypeDeclarationStatusChanges = true := by
  have valid : ∀ word ∈ [Word.longAttached "compare" (.ignore [.typeDeclarationStatusChanges]),
      .short .times [.input .btf], .file "a", .shortAttached [] (.format .small),
      .longSeparate "output" (.output "-"), .long "abi" (.input .abi), .file "b"], word.Valid := by
    simp only [List.forall_mem_cons, Word.Valid]
    exact ⟨by decide, trivial, by simp, by decide, by decide, by decide, by simp, by simp⟩
  obtain ⟨settings, parsed, _, times, inputs, outputs, _, status⟩ := @processArguments_directives
    [.ignore [.typeDeclarationStatusChanges], .times, .input .btf "a", .output .small "-",
      .input .abi "b"] _ valid rfl
  exact ⟨settings, parsed, times, inputs, outputs,
    status.mpr ⟨_, List.mem_cons_self, _, List.mem_singleton_self _, by decide⟩⟩

end Stg.Stgdiff
