import Stg.Lines

set_option autoImplicit false

/- Added and removed symbols are grouped by kind. -/
namespace Stg

/-- A block of a report: a symbol that was added or removed, or a heading with details. -/
inductive ReportBlock where
  | symbol (kind description which : String)
  | details (heading : String) (nested : List String)
  deriving DecidableEq, Repr

namespace ReportBlock

/-- Every block ends with an empty line. -/
def lines : ReportBlock → List String
  | symbol kind description which =>
    [kind ++ " symbol " ++ description ++ " was " ++ which, ""]
  | details heading nested => heading :: nested ++ [""]

/-- The kind is one word; details are indented. A symbol whose line has a line feed or a carriage
return in it is outside of the pattern for added and removed symbols, and is no such block. -/
def Small : ReportBlock → Prop
  | symbol kind description which =>
    (kind ≠ "" ∧ ∀ c ∈ kind.toList, isSpace c = false ∧ inLine c = true) ∧
      (∀ c ∈ description.toList, inLine c = true) ∧ (which = "added" ∨ which = "removed")
  | details heading nested =>
    heading.toList.head? ≠ some ' ' ∧ nested ≠ [] ∧
      ∀ detail ∈ nested, detail.toList.head? = some ' '

/-- The direction, the kind and the description of a symbol that was added or removed. -/
def symbols : ReportBlock → List (String × String × String)
  | symbol kind description which => [(which, kind, description)]
  | details _ _ => []

/-- The lines that are not about an added or removed symbol. -/
def others : ReportBlock → List String
  | symbol _ _ _ => []
  | details heading nested => heading :: nested ++ [""]

/-- No description contains the word `symbol` (its start counts as a space) and no last detail
looks like the line of an added or removed symbol. -/
def ReadsWell : ReportBlock → Prop
  | symbol _ description _ => ¬ " symbol ".toList <:+: ' ' :: description.toList
  | details _ nested => ∀ last ∈ nested.getLast?, ¬ ∃ kind symbol which,
      IsAddedRemoved last kind symbol which

instance : DecidablePred Small
  | symbol kind description which =>
    decidable_of_iff ((kind ≠ "" ∧ kind.toList.all fun c => isSpace c = false ∧ inLine c = true) ∧
        description.toList.all inLine ∧ (which = "added" ∨ which = "removed"))
      (by simp only [Small, List.all_eq_true, decide_eq_true_eq])
  | details _ _ => inferInstanceAs (Decidable (_ ∧ _ ∧ _))

instance : DecidablePred ReadsWell
  | symbol _ _ _ => inferInstanceAs (Decidable (¬ _))
  | details _ nested =>
    decidable_of_iff (∀ last ∈ nested.getLast?, ¬ (regexMatch addedRemovedRe last).isSome)
      (forall₂_congr fun _ _ => not_congr addedRemoved_isSome)

end ReportBlock

/-- A part of the output: a header with the symbols under it, or any other line. -/
inductive SymbolPart where
  | group (which kind : String) (symbols : List String)
  | kept (line : String)

namespace SymbolPart

def lines : SymbolPart → List String
  | group which kind symbols =>
    (toString symbols.length ++ " " ++ kind ++ " symbol(s) " ++ which) ::
      symbols.map ("  " ++ ·) ++ [""]
  | kept line => [line]

def listed : SymbolPart → List (String × String × String)
  | group which kind symbols => symbols.map fun symbol => (which, kind, symbol)
  | kept _ => []

def others : SymbolPart → List String
  | group _ _ _ => []
  | kept line => [line]

def NotEmpty : SymbolPart → Prop
  | group _ _ symbols => symbols ≠ []
  | kept _ => True

end SymbolPart

/-- Every symbol is listed once under a header of its kind and direction that counts the symbols
under it, and the other lines are kept in order. -/
def Regroups (symbols : List (String × String × String)) (others output : List String) : Prop :=
  ∃ parts : List SymbolPart, output = parts.flatMap SymbolPart.lines ∧
    (∀ part ∈ parts, part.NotEmpty) ∧ parts.flatMap SymbolPart.others = others ∧
    (parts.flatMap SymbolPart.listed).Perm symbols

section Loop

/-- What the loop reads: an added or removed symbol with an empty line, or any other line. -/
inductive SymbolToken where
  | symbol (kind description which : String)
  | kept (line : String)

namespace SymbolToken

def symbols : SymbolToken → List (String × String × String)
  | symbol kind description which => [(which, kind, description)]
  | kept _ => []

def others : SymbolToken → List String
  | symbol _ _ _ => []
  | kept line => [line]

end SymbolToken

def symbolTokens : List String → List SymbolToken
  | [] => []
  | line :: line2 :: rest =>
    match addedRemovedSymbol line line2 with
    | some (kind, symbol, which) => .symbol kind symbol which :: symbolTokens rest
    | none => .kept line :: symbolTokens (line2 :: rest)
  | line :: report => .kept line :: symbolTokens report

/-- The symbols of one direction that are pending. -/
def kindEntries (which : String) (kinds : PendingKinds) : List (String × String × String) :=
  kinds.flatMap fun kind => kind.2.map fun symbol => (which, kind.1, symbol)

def pendingEntries (pending : String → PendingKinds) : List (String × String × String) :=
  ["removed", "added"].flatMap fun which => kindEntries which (pending which)

variable {kind symbol which : String} {pending : String → PendingKinds}

theorem kindEntries_pushSymbol (kinds : PendingKinds) :
    (kindEntries which (pushSymbol kind symbol kinds)).Perm
      (kindEntries which kinds ++ [(which, kind, symbol)]) := by
  induction kinds with
  | nil => exact List.Perm.refl _
  | cons first rest ih =>
    obtain ⟨other, symbols⟩ := first
    unfold pushSymbol
    split
    · rename_i same
      subst same
      simp only [kindEntries, List.flatMap_cons, List.map_append, List.map_cons, List.map_nil,
        List.append_assoc]
      exact List.Perm.append_left _ List.perm_append_comm
    · split
      · exact List.perm_append_comm
      · have moved : (kindEntries which ((other, symbols) :: pushSymbol kind symbol rest)) =
            symbols.map (fun symbol => (which, other, symbol)) ++
              kindEntries which (pushSymbol kind symbol rest) := rfl
        rw [moved]
        refine (ih.append_left _).trans ?_
        rw [← List.append_assoc]
        exact List.Perm.refl _

theorem pendingEntries_push (direction : which = "added" ∨ which = "removed") :
    (pendingEntries (Function.update pending which (pushSymbol kind symbol (pending which)))).Perm
      (pendingEntries pending ++ [(which, kind, symbol)]) := by
  have both (pending : String → PendingKinds) : pendingEntries pending =
      kindEntries "removed" (pending "removed") ++ kindEntries "added" (pending "added") := by
    simp [pendingEntries]
  rw [both, both, List.append_assoc]
  rcases direction with rfl | rfl
  · rw [Function.update_self, Function.update_of_ne (by decide)]
    exact (kindEntries_pushSymbol _).append_left _
  · rw [Function.update_self, Function.update_of_ne (by decide)]
    refine ((kindEntries_pushSymbol _).append_right _).trans ?_
    rw [List.append_assoc]
    exact List.perm_append_comm.append_left _

theorem pendingEntries_clear : pendingEntries (clearSymbols pending) = [] := by
  have cleared (kinds : PendingKinds) (which : String) :
      kindEntries which (kinds.map fun kind => (kind.1, [])) = [] := by
    simp [kindEntries]
  simp [pendingEntries, clearSymbols, cleared]

/-- What is emitted lists the pending symbols. -/
theorem emitSymbols_regroups : Regroups (pendingEntries pending) [] (emitSymbols pending) := by
  let part (which : String) (kind : String × List String) : List SymbolPart :=
    if kind.2.isEmpty then [] else [.group which kind.1 kind.2]
  have kinds (which : String) (kind : String × List String) :
      (part which kind).flatMap SymbolPart.lines = symbolGroup which kind.1 kind.2 ∧
      (∀ p ∈ part which kind, p.NotEmpty) ∧ (part which kind).flatMap SymbolPart.others = [] ∧
      (part which kind).flatMap SymbolPart.listed =
        kind.2.map fun symbol => (which, kind.1, symbol) := by
    by_cases empty : kind.2 = []
    · simp [part, symbolGroup, empty]
    · simp [part, symbolGroup, empty, SymbolPart.lines, SymbolPart.others, SymbolPart.listed,
        SymbolPart.NotEmpty]
  refine ⟨["removed", "added"].flatMap fun which => (pending which).flatMap (part which),
    ?_, ?_, ?_, ?_⟩
  · simp only [emitSymbols, List.flatMap_assoc, (kinds _ _).1]
  · intro p present
    obtain ⟨which, _, present⟩ := List.mem_flatMap.mp present
    obtain ⟨kind, _, present⟩ := List.mem_flatMap.mp present
    exact (kinds which kind).2.1 p present
  · simp only [List.flatMap_assoc, (kinds _ _).2.2.1]
    simp
  · simp only [pendingEntries, kindEntries, List.flatMap_assoc, (kinds _ _).2.2.2]
    exact List.Perm.refl _

section Regroups

variable {symbols symbols' : List (String × String × String)} {others others' : List String}
  {output output' : List String}

theorem Regroups.append (first : Regroups symbols others output)
    (second : Regroups symbols' others' output') :
    Regroups (symbols ++ symbols') (others ++ others') (output ++ output') := by
  obtain ⟨parts, made, filled, kept, listed⟩ := first
  obtain ⟨parts', made', filled', kept', listed'⟩ := second
  refine ⟨parts ++ parts', ?_, ?_, ?_, ?_⟩
  · rw [List.flatMap_append, made, made']
  · exact List.forall_mem_append.mpr ⟨filled, filled'⟩
  · rw [List.flatMap_append, kept, kept']
  · rw [List.flatMap_append]
    exact listed.append listed'

theorem Regroups.line (line : String) : Regroups [] [line] [line] :=
  ⟨[.kept line], rfl, by simp [SymbolPart.NotEmpty], rfl, List.Perm.refl _⟩

theorem Regroups.perm (regroups : Regroups symbols others output)
    (same : symbols.Perm symbols') : Regroups symbols' others output := by
  obtain ⟨parts, made, filled, kept, listed⟩ := regroups
  exact ⟨parts, made, filled, kept, listed.trans same⟩

end Regroups

theorem addedRemovedSymbol_eq {line line2 : String}
    (found : addedRemovedSymbol line line2 = some (kind, symbol, which)) :
    line2 = "" ∧ IsAddedRemoved line kind symbol which ∧
      ∀ kind' symbol' which', IsAddedRemoved line kind' symbol' which' →
        kind'.length ≤ kind.length := by
  unfold addedRemovedSymbol at found
  split at found
  · rename_i kind symbol which matched
    split at found
    · rename_i empty
      cases found
      obtain ⟨_, _, _, same, reads, longest⟩ := addedRemoved_spec matched
      cases same
      exact ⟨empty_iff.mp empty, reads, longest⟩
    · cases found
  · cases found

theorem addedRemovedSymbol_none {line line2 : String} :
    addedRemovedSymbol line line2 = none ↔
      ¬ (line2 = "" ∧ ∃ kind symbol which, IsAddedRemoved line kind symbol which) := by
  rw [← addedRemoved_isSome, ← empty_iff]
  unfold addedRemovedSymbol
  split
  · rename_i matched
    simp [matched]
  · rename_i other
    simp only [true_iff]
    rintro ⟨_, matched⟩
    obtain ⟨captures, found⟩ := Option.isSome_iff_exists.mp matched
    obtain ⟨_, _, _, rfl, _⟩ := addedRemoved_spec found
    exact other _ _ _ found

/-- The loop extends the new report with what it holds back and what it reads, regrouped. -/
def Extends (tokens : List SymbolToken) (pending : String → PendingKinds)
    (newReport result : List String) : Prop :=
  ∃ output, result = newReport ++ output ∧
    Regroups (pendingEntries pending ++ tokens.flatMap SymbolToken.symbols)
      (tokens.flatMap SymbolToken.others) output

theorem Extends.kept {tokens : List SymbolToken} {newReport result : List String} {line : String}
    (later : Extends tokens (clearSymbols pending) (newReport ++ emitSymbols pending ++ [line])
      result) : Extends (.kept line :: tokens) pending newReport result := by
  obtain ⟨output, made, regroups⟩ := later
  rw [pendingEntries_clear, List.nil_append] at regroups
  refine ⟨emitSymbols pending ++ ([line] ++ output), ?_, ?_⟩
  · rw [made]
    simp
  · exact emitSymbols_regroups.append ((Regroups.line line).append regroups)

theorem groupSymbolsLoop_extends (report : List String) (pending : String → PendingKinds)
    (newReport : List String) :
    Extends (symbolTokens report) pending newReport
      (groupSymbolsLoop report pending newReport) := by
  fun_induction groupSymbolsLoop report pending newReport with
  | case1 pending newReport =>
    refine ⟨_, rfl, ?_⟩
    simpa [symbolTokens] using emitSymbols_regroups
  | case2 line line2 rest pending newReport kind symbol which found ih =>
    obtain ⟨output, made, regroups⟩ := ih
    refine ⟨output, made, ?_⟩
    simp only [symbolTokens, found, List.flatMap_cons, SymbolToken.symbols, SymbolToken.others,
      List.nil_append]
    refine regroups.perm ?_
    rw [← List.append_assoc]
    exact (pendingEntries_push (addedRemovedSymbol_eq found).2.1.2.2).append_right _
  | case3 line line2 rest pending newReport found ih =>
    simp only [symbolTokens, found]
    exact ih.kept
  | case4 line report pending newReport notLast ih =>
    cases report with
    | nil => exact ih.kept
    | cons line2 rest => exact absurd rfl (notLast line2 rest)

/-- Every report is regrouped the way the loop reads it. -/
theorem groupRemovedAddedSymbols_regroups (report : List String) :
    Regroups ((symbolTokens report).flatMap SymbolToken.symbols)
      ((symbolTokens report).flatMap SymbolToken.others) (groupRemovedAddedSymbols report) := by
  obtain ⟨output, made, regroups⟩ := groupSymbolsLoop_extends report (fun _ => []) []
  rw [groupRemovedAddedSymbols, made]
  exact regroups

end Loop

section Reading

variable {kind symbol which kind' symbol' which' line line2 : String} {rest : List String}

/-- Another way to read the line of a symbol. -/
theorem IsAddedRemoved.split
    (reads : IsAddedRemoved (kind ++ " symbol " ++ symbol ++ " was " ++ which) kind' symbol' which')
    (direction : which = "added" ∨ which = "removed") (longer : kind.length ≤ kind'.length) :
    which' = which ∧ ∃ t, kind'.toList = kind.toList ++ t ∧
      " symbol ".toList ++ symbol.toList = t ++ (" symbol ".toList ++ symbol'.toList) := by
  obtain ⟨same, _, direction'⟩ := reads
  have whole := congrArg String.toList same
  simp only [String.toList_append, List.append_assoc] at whole
  have ends (a b : List Char) (split : a ++ (" was ".toList ++ which.toList) =
      b ++ (" was ".toList ++ which'.toList)) : which' = which ∧ a = b := by
    have suffix : " was ".toList ++ which.toList <:+ b ++ (" was ".toList ++ which'.toList) :=
      split ▸ List.suffix_append _ _
    have equal : which' = which := by
      rcases direction with rfl | rfl <;> rcases direction' with rfl | rfl
      · rfl
      · have apart := List.suffix_of_suffix_length_le suffix (List.suffix_append _ _) (by decide)
        exact absurd apart (by decide)
      · have apart := List.suffix_of_suffix_length_le (List.suffix_append _ _) suffix (by decide)
        exact absurd apart (by decide)
      · rfl
    rw [equal] at split
    exact ⟨equal, List.append_cancel_right split⟩
  obtain ⟨equal, start⟩ := ends (kind.toList ++ (" symbol ".toList ++ symbol.toList))
    (kind'.toList ++ (" symbol ".toList ++ symbol'.toList)) (by simpa using whole)
  have within : kind.toList <+: kind'.toList ++ (" symbol ".toList ++ symbol'.toList) :=
    start ▸ List.prefix_append _ _
  have isPrefix : kind.toList <+: kind'.toList := by
    apply List.prefix_of_prefix_length_le within (List.prefix_append _ _)
    rwa [String.length_toList, String.length_toList]
  obtain ⟨t, extended⟩ := isPrefix
  rw [← extended, List.append_assoc] at start
  exact ⟨equal, t, extended.symm, List.append_cancel_left start⟩

/-- The word `symbol` is found later if and only if the description contains it. -/
theorem symbol_infix_iff {description : List Char} :
    " symbol ".toList <:+: ' ' :: description ↔ ∃ t description', t ≠ [] ∧
      " symbol ".toList ++ description = t ++ (" symbol ".toList ++ description') := by
  have start : " symbol ".toList = ' ' :: "symbol ".toList := rfl
  have opened : " symbol ".toList ++ description = " symbol".toList ++ ' ' :: description := rfl
  constructor
  · rintro ⟨before, after, split⟩
    refine ⟨" symbol".toList ++ before, after, List.append_ne_nil_of_left_ne_nil (by decide) _, ?_⟩
    rw [opened, ← split]
    simp only [List.append_assoc]
  · rintro ⟨t, description', something, split⟩
    rw [opened] at split
    rcases List.append_eq_append_iff.mp split with ⟨a, rfl, rest⟩ | ⟨b, whole, rest⟩
    · rw [rest]
      exact ⟨a, description', by simp⟩
    · cases b with
      | nil =>
        rw [List.nil_append] at rest
        exact ⟨[], description', by rw [← rest]; rfl⟩
      | cons c b =>
        -- only the first character of the word before is a space
        rw [start, List.cons_append, List.cons_append, List.cons.injEq] at rest
        obtain ⟨d, t', rfl⟩ := List.exists_cons_of_ne_nil something
        have inside : ' ' ∈ "symbol".toList := by
          have tail := congrArg List.tail whole
          rw [List.cons_append, List.tail_cons] at tail
          change "symbol".toList = t' ++ c :: b at tail
          rw [tail, ← rest.1]
          exact List.mem_append_right _ List.mem_cons_self
        exact absurd inside (by decide)

/-- The description of a symbol is read whole, or a shorter one is read. -/
theorem ReportBlock.symbol_read {description : String}
    (small : (ReportBlock.symbol kind description which).Small) : ∃ kind' description',
      addedRemovedSymbol (kind ++ " symbol " ++ description ++ " was " ++ which) "" =
        some (kind', description', which) ∧
      ((ReportBlock.symbol kind description which).ReadsWell →
        kind' = kind ∧ description' = description) ∧
      (¬ (ReportBlock.symbol kind description which).ReadsWell →
        description'.length < description.length) := by
  obtain ⟨⟨_, inKind⟩, inDescription, direction⟩ := small
  have own : IsAddedRemoved (kind ++ " symbol " ++ description ++ " was " ++ which) kind
      description which := by
    refine ⟨rfl, ?_, direction⟩
    rw [String.toList_append, List.forall_mem_append]
    exact ⟨fun c present => (inKind c present).2, inDescription⟩
  cases found : addedRemovedSymbol (kind ++ " symbol " ++ description ++ " was " ++ which) "" with
  | none => exact absurd ⟨rfl, kind, description, which, own⟩ (addedRemovedSymbol_none.mp found)
  | some entry =>
    obtain ⟨kind', description', which'⟩ := entry
    obtain ⟨_, reads, longest⟩ := addedRemovedSymbol_eq found
    obtain ⟨rfl, t, extended, rest⟩ := reads.split direction (longest _ _ _ own)
    have lengths := congrArg List.length rest
    simp only [List.length_append, String.length_toList] at lengths
    refine ⟨kind', description', rfl, ?_, ?_⟩
    · intro well
      have nothing : t = [] := by
        by_contra something
        exact well (symbol_infix_iff.mpr ⟨t, _, something, rest⟩)
      rw [nothing, List.append_nil] at extended
      rw [nothing, List.nil_append] at rest
      exact ⟨String.toList_inj.mp extended,
        (String.toList_inj.mp (List.append_cancel_left rest)).symm⟩
    · intro badly
      obtain ⟨t', later, something, rest'⟩ := symbol_infix_iff.mp (not_not.mp badly)
      have other : IsAddedRemoved (kind ++ " symbol " ++ description ++ " was " ++ which')
          (kind ++ String.ofList t') (String.ofList later) which' := by
        have inside : ∀ c ∈ t' ++ (" symbol ".toList ++ later), inLine c = true := by
          rw [← rest', List.forall_mem_append]
          exact ⟨List.all_eq_true.mp (by decide), inDescription⟩
        simp only [List.forall_mem_append] at inside
        refine ⟨?_, ?_, direction⟩
        · rw [← String.toList_inj]
          simp only [String.toList_append, String.toList_ofList, List.append_assoc]
          rw [← List.append_assoc " symbol ".toList, rest']
          simp only [List.append_assoc]
        · simp only [String.toList_append, String.toList_ofList, List.forall_mem_append]
          exact ⟨⟨fun c present => (inKind c present).2, inside.1⟩, inside.2.2⟩
      have longer := longest _ _ _ other
      have kinds := congrArg List.length extended
      have positive := List.length_pos_iff.mpr something
      simp only [List.length_append, String.length_toList, String.length_append,
        String.length_ofList] at kinds longer
      omega

end Reading

section Weight

/-- How much is listed, with two spaces before every symbol. -/
def listedWeight (symbols : List (String × String × String)) : Nat :=
  (symbols.map fun symbol => 2 + symbol.2.2.length).sum

/-- How much the indented lines hold. -/
def indentedWeight (lines : List String) : Nat :=
  (lines.map fun line => if line.toList.head? = some ' ' then line.length else 0).sum

@[simp] theorem indentedWeight_append (lines lines' : List String) :
    indentedWeight (lines ++ lines') = indentedWeight lines + indentedWeight lines' := by
  simp [indentedWeight]

@[simp] theorem listedWeight_append (symbols symbols' : List (String × String × String)) :
    listedWeight (symbols ++ symbols') = listedWeight symbols + listedWeight symbols' := by
  simp [listedWeight]

theorem indentedWeight_cons (line : String) (lines : List String) :
    indentedWeight (line :: lines) =
      (if line.toList.head? = some ' ' then line.length else 0) + indentedWeight lines := by
  simp [indentedWeight]

theorem header_head (number : Nat) (text : String) :
    (toString number ++ text).toList.head? ≠ some ' ' := by
  rw [String.toList_append, List.head?_append]
  have digits : (toString number).toList = Nat.toDigits 10 number := by
    rw [Nat.toString_eq_ofList_toDigits, String.toList_ofList]
  rw [digits]
  cases shown : Nat.toDigits 10 number with
  | nil => exact absurd shown Nat.toDigits_ne_nil
  | cons c rest =>
    have digit : c.isDigit := Nat.isDigit_of_mem_toDigits (by decide) (by decide)
      (shown ▸ List.mem_cons_self)
    rw [List.head?_cons, Option.some_or]
    rintro ⟨⟩
    exact absurd digit (by decide)

theorem SymbolPart.weight (part : SymbolPart) : indentedWeight part.lines =
    listedWeight part.listed + indentedWeight part.others := by
  cases part with
  | kept line => simp [SymbolPart.lines, SymbolPart.listed, SymbolPart.others, listedWeight]
  | group which kind symbols =>
    have under : indentedWeight (symbols.map ("  " ++ ·)) =
        listedWeight (symbols.map fun symbol => (which, kind, symbol)) := by
      simp only [indentedWeight, listedWeight, List.map_map]
      congr 1
      apply List.map_congr_left
      intro symbol _
      simp
      rfl
    have header : (toString symbols.length ++ " " ++ kind ++ " symbol(s) " ++ which).toList.head? ≠
        some ' ' := by
      rw [String.append_assoc, String.append_assoc, String.append_assoc]
      exact header_head _ _
    simp only [SymbolPart.lines, SymbolPart.listed, SymbolPart.others, List.cons_append]
    rw [indentedWeight_cons, if_neg header, indentedWeight_append, under, Nat.zero_add]
    rfl

theorem Regroups.weight {symbols : List (String × String × String)} {others output : List String}
    (regroups : Regroups symbols others output) :
    indentedWeight output = listedWeight symbols + indentedWeight others := by
  obtain ⟨parts, rfl, filled, rfl, listed⟩ := regroups
  have same : listedWeight symbols = listedWeight (parts.flatMap SymbolPart.listed) :=
    (listed.map _).sum_nat.symm
  rw [same]
  clear same listed filled
  induction parts with
  | nil => rfl
  | cons part parts ih =>
    simp only [List.flatMap_cons, indentedWeight_append, listedWeight_append, part.weight, ih]
    omega

end Weight

section Blocks

variable {line line2 : String} {rest : List String}

theorem symbolTokens_kept (something : line2 ≠ "") :
    symbolTokens (line :: line2 :: rest) = .kept line :: symbolTokens (line2 :: rest) := by
  have nothing : addedRemovedSymbol line line2 = none :=
    addedRemovedSymbol_none.mpr fun both => something both.1
  rw [symbolTokens, nothing]

theorem symbolTokens_empty : symbolTokens ("" :: rest) = .kept "" :: symbolTokens rest := by
  cases rest with
  | nil => rfl
  | cons line2 rest =>
    have nothing : addedRemovedSymbol "" line2 = none := by
      refine addedRemovedSymbol_none.mpr ?_
      rintro ⟨_, kind, symbol, which, split, _⟩
      have lengths := congrArg String.length split
      have word : " symbol ".length = 8 := rfl
      simp only [String.length_append, String.length_empty] at lengths
      omega
    rw [symbolTokens, nothing]

/-- Lines that are followed by lines that are not empty are kept. -/
theorem symbolTokens_append (lines : List String) (last : String)
    (filled : ∀ line ∈ (lines ++ [last]).tail, line ≠ "") :
    symbolTokens (lines ++ last :: rest) =
      lines.map SymbolToken.kept ++ symbolTokens (last :: rest) := by
  induction lines with
  | nil => rfl
  | cons line lines ih =>
    have later : ∀ line ∈ (lines ++ [last]).tail, line ≠ "" := fun line present =>
      filled line (List.mem_of_mem_tail present)
    rw [List.map_cons, List.cons_append, List.cons_append, ← ih later]
    cases lines with
    | nil => exact symbolTokens_kept (filled last (by simp))
    | cons line2 lines => exact symbolTokens_kept (filled line2 (by simp))

theorem others_kept (lines : List String) :
    (lines.map SymbolToken.kept).flatMap SymbolToken.others = lines ∧
      (lines.map SymbolToken.kept).flatMap SymbolToken.symbols = [] := by
  simp [SymbolToken.others, SymbolToken.symbols, List.flatMap_map]

/-- What the loop reads of a block: the block itself, or less than it holds. -/
structure Reads (block : ReportBlock) (tokens : List SymbolToken) : Prop where
  lines : ∀ rest, symbolTokens (block.lines ++ rest) = tokens ++ symbolTokens rest
  symbols : block.ReadsWell → tokens.flatMap SymbolToken.symbols = block.symbols
  others : block.ReadsWell → tokens.flatMap SymbolToken.others = block.others
  less : ¬ block.ReadsWell → listedWeight (tokens.flatMap SymbolToken.symbols) +
    indentedWeight (tokens.flatMap SymbolToken.others) <
      listedWeight block.symbols + indentedWeight block.others

theorem ReportBlock.reads {block : ReportBlock} (small : block.Small) :
    ∃ tokens, Reads block tokens := by
  cases block with
  | symbol kind description which =>
    obtain ⟨kind', description', found, well, badly⟩ := ReportBlock.symbol_read small
    refine ⟨[.symbol kind' description' which], ?_, ?_, ?_, ?_⟩
    · intro rest
      simp only [ReportBlock.lines, List.cons_append, List.nil_append]
      rw [symbolTokens, found]
    · intro readsWell
      obtain ⟨rfl, rfl⟩ := well readsWell
      rfl
    · intro _
      rfl
    · intro readsBadly
      have shorter := badly readsBadly
      simpa [SymbolToken.symbols, SymbolToken.others, ReportBlock.symbols, ReportBlock.others,
        listedWeight] using shorter
  | details heading nested =>
    obtain ⟨_, something, indented⟩ := small
    obtain ⟨init, last, rfl⟩ := (List.eq_nil_or_concat' nested).resolve_left something
    have filled : ∀ line ∈ (heading :: init ++ [last]).tail, line ≠ "" := by
      rintro line present rfl
      have space := indented "" (by simpa using present)
      cases space
    have split (rest : List String) :
        symbolTokens ((ReportBlock.details heading (init ++ [last])).lines ++ rest) =
          (heading :: init).map SymbolToken.kept ++ symbolTokens (last :: "" :: rest) := by
      rw [← symbolTokens_append (heading :: init) last filled]
      simp [ReportBlock.lines]
    cases found : addedRemovedSymbol last "" with
    | none =>
      have readsWell : (ReportBlock.details heading (init ++ [last])).ReadsWell := by
        intro line isLast reads
        obtain rfl : last = line := by simpa using isLast
        exact addedRemovedSymbol_none.mp found ⟨rfl, reads⟩
      refine ⟨(heading :: init ++ [last, ""]).map SymbolToken.kept, ?_, ?_, ?_, ?_⟩
      · intro rest
        rw [split, symbolTokens, found]
        simp [symbolTokens_empty]
      · intro _
        exact (others_kept _).2
      · intro _
        rw [(others_kept _).1]
        simp [ReportBlock.others]
      · intro readsBadly
        exact absurd readsWell readsBadly
    | some entry =>
      obtain ⟨kind, symbol, which⟩ := entry
      have reads := (addedRemovedSymbol_eq found).2.1
      have readsBadly : ¬ (ReportBlock.details heading (init ++ [last])).ReadsWell := fun well =>
        well last (by simp) ⟨kind, symbol, which, reads⟩
      refine ⟨(heading :: init).map SymbolToken.kept ++ [.symbol kind symbol which], ?_, ?_, ?_, ?_⟩
      · intro rest
        rw [split, symbolTokens, found]
        simp
      · intro well
        exact absurd well readsBadly
      · intro well
        exact absurd well readsBadly
      · intro _
        have space := indented last (by simp)
        have lengths := congrArg String.length reads.1
        simp only [String.length_append] at lengths
        have long : 2 + symbol.length < last.length := by
          have word : " symbol ".length = 8 := rfl
          omega
        have kept : indentedWeight (heading :: (init ++ [last]) ++ [""]) =
            indentedWeight (heading :: init) + last.length := by
          simp only [List.cons_append, indentedWeight_cons, indentedWeight_append, if_pos space]
          simp [indentedWeight]
          omega
        rw [List.flatMap_append, List.flatMap_append, (others_kept _).1, (others_kept _).2]
        simp only [ReportBlock.others, ReportBlock.symbols, kept, indentedWeight_append]
        simp [listedWeight, indentedWeight, SymbolToken.symbols, SymbolToken.others]
        omega

end Blocks

section Reports

/-- The tokens of a report are the tokens of its blocks. -/
theorem tokens_of_blocks {blocks : List ReportBlock} (small : ∀ block ∈ blocks, block.Small) :
    ((∀ block ∈ blocks, block.ReadsWell) →
      (symbolTokens (blocks.flatMap ReportBlock.lines)).flatMap SymbolToken.symbols =
        blocks.flatMap ReportBlock.symbols ∧
      (symbolTokens (blocks.flatMap ReportBlock.lines)).flatMap SymbolToken.others =
        blocks.flatMap ReportBlock.others) ∧
    (listedWeight ((symbolTokens (blocks.flatMap ReportBlock.lines)).flatMap SymbolToken.symbols) +
        indentedWeight
          ((symbolTokens (blocks.flatMap ReportBlock.lines)).flatMap SymbolToken.others) ≤
      listedWeight (blocks.flatMap ReportBlock.symbols) +
        indentedWeight (blocks.flatMap ReportBlock.others)) ∧
    (¬ (∀ block ∈ blocks, block.ReadsWell) →
      listedWeight ((symbolTokens (blocks.flatMap ReportBlock.lines)).flatMap SymbolToken.symbols) +
          indentedWeight
            ((symbolTokens (blocks.flatMap ReportBlock.lines)).flatMap SymbolToken.others) <
        listedWeight (blocks.flatMap ReportBlock.symbols) +
          indentedWeight (blocks.flatMap ReportBlock.others)) := by
  induction blocks with
  | nil => simp [symbolTokens]
  | cons block blocks ih =>
    obtain ⟨smallBlock, smallBlocks⟩ := List.forall_mem_cons.mp small
    obtain ⟨well, bounded, less⟩ := ih smallBlocks
    obtain ⟨tokens, reads⟩ := ReportBlock.reads smallBlock
    have own : listedWeight (tokens.flatMap SymbolToken.symbols) +
        indentedWeight (tokens.flatMap SymbolToken.others) ≤
          listedWeight block.symbols + indentedWeight block.others := by
      by_cases readsWell : block.ReadsWell
      · rw [reads.symbols readsWell, reads.others readsWell]
      · exact (reads.less readsWell).le
    simp only [List.flatMap_cons, reads.lines, List.flatMap_append, listedWeight_append,
      indentedWeight_append, List.forall_mem_cons]
    refine ⟨?_, by omega, ?_⟩
    · rintro ⟨readsWell, allWell⟩
      rw [reads.symbols readsWell, reads.others readsWell, (well allWell).1, (well allWell).2]
      exact ⟨rfl, rfl⟩
    · intro badly
      rcases not_and_or.mp badly with first | later
      · have smaller := reads.less first
        omega
      · have smaller := less later
        omega

/-- `GroupRemovedAddedSymbols` regroups a small report if and only if every block reads well. -/
theorem groupRemovedAddedSymbols_iff (blocks : List ReportBlock)
    (small : ∀ block ∈ blocks, block.Small) :
    Regroups (blocks.flatMap ReportBlock.symbols) (blocks.flatMap ReportBlock.others)
      (groupRemovedAddedSymbols (blocks.flatMap ReportBlock.lines)) ↔
    ∀ block ∈ blocks, block.ReadsWell := by
  obtain ⟨well, _, less⟩ := tokens_of_blocks small
  have made := groupRemovedAddedSymbols_regroups (blocks.flatMap ReportBlock.lines)
  constructor
  · intro regroups
    by_contra badly
    have smaller := less badly
    have whole := regroups.weight
    have read := made.weight
    omega
  · intro readsWell
    rwa [(well readsWell).1, (well readsWell).2] at made

theorem groupRemovedAddedSymbols_iff_add :
    Regroups [("added", "function", "'void g()'"), ("added", "function", "'int f()'")]
      ["type 'struct S' changed", "  member 'int x' was added", ""]
      (groupRemovedAddedSymbols ["function symbol 'void g()' was added", "",
        "type 'struct S' changed", "  member 'int x' was added", "",
        "function symbol 'int f()' was added", ""]) :=
  (groupRemovedAddedSymbols_iff [.symbol "function" "'void g()'" "added",
      .details "type 'struct S' changed" ["  member 'int x' was added"],
      .symbol "function" "'int f()'" "added"] (by decide +kernel)).mpr (by decide +kernel)

/-- The word `symbol` in a type name is taken for the word behind the kind. -/
theorem groupRemovedAddedSymbols_splits_name :
    ¬ ∀ blocks : List ReportBlock, (∀ block ∈ blocks, block.Small) →
      Regroups (blocks.flatMap ReportBlock.symbols) (blocks.flatMap ReportBlock.others)
        (groupRemovedAddedSymbols (blocks.flatMap ReportBlock.lines)) := by
  intro regroups
  have weights := (regroups [.symbol "function" "'struct symbol * f()'" "added"]
    (by decide +kernel)).weight
  revert weights
  decide +kernel

end Reports

end Stg
