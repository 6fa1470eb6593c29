import Stg.OffsetChanges
import Stg.SymbolGroups
import Stg.TypeNames
import Stg.AbiXml.Closed
import Stg.Stgdiff

set_option autoImplicit false

/- How far the summary of the offsets of a member is right: the reader admits and the report
prints every unsigned number of 64 bits, and the summary reads a signed one back. -/
namespace Stg

section Numbers

theorem print_digits (number : UInt64) : Digits (print number) := by
  refine ⟨?_, digits_of_print number⟩
  intro empty
  have none : Nat.toDigits 10 number.toNat = [] := by
    rw [← toList_print, empty]
    rfl
  exact Nat.toDigits_ne_nil none

@[simp] theorem value_print (number : UInt64) : value (print number) = number.toNat := by
  rw [value, toList_print, Nat.ofDigitChars_ten_toDigits]

theorem decimalDigit_of_isDigit {c : Char} (digit : c.isDigit = true) :
    AbiXml.decimalDigit? c = some (c.toNat - '0'.toNat) := by
  rw [Char.isDigit, Bool.and_eq_true, decide_eq_true_eq, decide_eq_true_eq] at digit
  exact if_pos digit

/-- The reader and the summary agree on what digits mean. -/
theorem parseDigits_eq {digits : List Char} (all : ∀ c ∈ digits, c.isDigit = true) (number : Nat) :
    AbiXml.parseDigits AbiXml.decimalDigit? 10 number digits =
      some (Nat.ofDigitChars 10 digits number) := by
  induction digits generalizing number with
  | nil => rfl
  | cons c digits ih =>
    obtain ⟨digit, rest⟩ := List.forall_mem_cons.mp all
    rw [AbiXml.parseDigits, decimalDigit_of_isDigit digit, Nat.ofDigitChars_cons,
      Nat.mul_comm 10 number]
    exact ih rest _

theorem splitSign_digits {digits : List Char} (all : ∀ c ∈ digits, c.isDigit = true) :
    AbiXml.splitSign digits = (false, digits) := by
  cases digits with
  | nil => rfl
  | cons c digits =>
    have digit := (List.forall_mem_cons.mp all).1
    unfold AbiXml.splitSign
    split
    · rename_i same
      cases same
      cases digit
    · rename_i same
      cases same
      cases digit
    · rfl

theorem parseUInt64_print (number : UInt64) : AbiXml.parseUInt64 (print number) = some number := by
  have nonempty : (print number).toList ≠ [] := by
    rw [toList_print]
    exact Nat.toDigits_ne_nil
  unfold AbiXml.parseUInt64
  rw [splitSign_digits (digits_of_print number)]
  simp only [AbiXml.parseNumber, if_neg nonempty, parseDigits_eq (digits_of_print number)]
  rw [toList_print, Nat.ofDigitChars_ten_toDigits, Option.bind_some, AbiXml.toUnsigned,
    if_pos number.toNat_lt]
  simp

end Numbers

/-- The offsets of a member, on a line of their own below it. -/
def offsetLine (indent : Nat) (old new : UInt64) : String :=
  spaces (indent + 2) ++ changeText "offset" old new

/-- Wherever the offsets are all that has changed in a member, the report is completed and says
by how much the offset has changed. No other offsets in the report are too large. -/
def SummarisesExactly (old new : UInt64) : Prop :=
  ∀ (report before after : List String) (line1 line3 member : String) (limit indent : Nat),
    groupRemovedAddedSymbols (summariseCRCChanges report limit) =
      before ++ line1 :: offsetLine indent old new :: line3 :: after →
    IsMemberChanged line1 indent member → (∀ c ∈ line3.toList, inLine c = true) →
    indentOf line3 ≤ indent → OffsetsBounded before → OffsetsBounded (line1 :: line3 :: after) →
    ∃ pieces lines, Pairs (before ++ line1 :: offsetLine indent old new :: line3 :: after) pieces ∧
      .moved ⟨indent, new.toNat - old.toNat, member⟩ line1 (offsetLine indent old new) ∈ pieces ∧
      postProcess report limit = .ok lines ∧ lines = (pieces.splitBy together).flatMap runLines ∧
      spaces indent ++ "  offset changed by " ++ toString (new.toNat - old.toNat : Int) ∈ lines ∧
      -2 ^ 63 ≤ (new.toNat - old.toNat : Int) ∧ (new.toNat - old.toNat : Int) < 2 ^ 63

variable {old new : UInt64} {indent : Nat}

theorem offsetLine_changed : IsOffsetChanged (offsetLine indent old new) (indent + 2) (print old)
    (print new) := by
  refine ⟨?_, print_digits old, print_digits new⟩
  rw [offsetLine, changeText, ← String.toList_inj]
  simp only [String.toList_append, List.append_assoc]
  rfl

/-- The numbers in a line are determined by it. -/
theorem IsOffsetChanged.unique {line : String} {indent indent' : Nat} {old new old' new' : String}
    (changed : IsOffsetChanged line indent old new)
    (again : IsOffsetChanged line indent' old' new') :
    indent = indent' ∧ old = old' ∧ new = new' := by
  have found := offsetChanged_iff.mpr ⟨_, _, _, changed, rfl⟩
  have found' := offsetChanged_iff.mpr ⟨_, _, _, again, rfl⟩
  have same := Option.some.inj (found.symm.trans found')
  rw [List.cons.injEq, List.cons.injEq, List.cons.injEq] at same
  exact ⟨spaces_injective same.1, same.2.1, same.2.2.1⟩

theorem OnlyOffset.unique {line1 line2 line3 : String} {change change' : OffsetChange}
    (only : OnlyOffset line1 line2 line3 change) (again : OnlyOffset line1 line2 line3 change') :
    change = change' := by
  obtain ⟨old, new, found1, found2, _, distance⟩ := only.matches_
  obtain ⟨old', new', found1', found2', _, distance'⟩ := again.matches_
  rw [found1, Option.some.injEq, List.cons.injEq, List.cons.injEq] at found1'
  rw [found2, Option.some.injEq, List.cons.injEq, List.cons.injEq, List.cons.injEq] at found2'
  obtain ⟨indent, offset, member⟩ := change
  obtain ⟨indent', offset', member'⟩ := change'
  obtain rfl : indent = indent' := spaces_injective found1'.1
  obtain rfl : member = member' := found1'.2.1
  obtain rfl : old = old' := found2'.2.1
  obtain rfl : new = new' := found2'.2.2.1
  have same : offset = offset' := distance.trans distance'.symm
  rw [same]

/-- A line about a member is not about an offset. -/
theorem IsMemberChanged.no_offset {line member : String}
    (changed : IsMemberChanged line indent member) {indent' : Nat} {old new : String} :
    ¬ IsOffsetChanged line indent' old new := by
  rintro ⟨split', _, _⟩
  obtain ⟨split, _⟩ := changed
  have lists := congrArg String.toList (split.symm.trans split')
  simp only [String.toList_append, List.append_assoc] at lists
  have start : "member ".toList = 'm' :: "ember ".toList := rfl
  have start' : "offset changed from ".toList = 'o' :: "ffset changed from ".toList := rfl
  rw [start, start', List.cons_append, List.cons_append] at lists
  obtain ⟨_, rest⟩ := Delimited.append_inj_of_stop (isSpace_spaces indent) (isSpace_spaces indent')
    rfl rfl lists
  exact absurd (List.cons.inj rest).1 (by decide)

section Reading

variable {report : List String} {line1 line2 line3 : String}

/-- A change is only made of offsets that can be read. -/
theorem offsetChange_bounded {found : Option OffsetChange} {change : OffsetChange}
    {old new : String}
    (read : offsetChange line1 line2 line3 = .ok found) (only : OnlyOffset line1 line2 line3 change)
    (changed : IsOffsetChanged line2 (change.indent + 2) old new) :
    value old < 2 ^ 63 ∧ value new < 2 ^ 63 := by
  obtain ⟨old', new', member, offset, indent, _⟩ := only.matches_
  obtain ⟨rfl, rfl⟩ : old' = old ∧ new' = new := by
    have again := offsetChanged_iff.mpr ⟨_, _, _, changed, rfl⟩
    rw [offset, Option.some.injEq, List.cons.injEq, List.cons.injEq, List.cons.injEq] at again
    exact ⟨again.2.1, again.2.2.1⟩
  have shallow : (spaces change.indent).length + 2 = (spaces (change.indent + 2)).length ∧
      (spaces change.indent).length ≥ (spaces (indentOf line3)).length := by
    rw [length_spaces, length_spaces, length_spaces]
    exact ⟨rfl, only.2.2.2⟩
  simp only [offsetChange, member, offset, indent, if_pos shallow] at read
  obtain ⟨_, newer, read⟩ := bind_eq_ok read
  obtain ⟨_, older, _⟩ := bind_eq_ok read
  have bounded {digits : String} {number : Int} (read : stoll digits = .ok number) :
      value digits < 2 ^ 63 := by
    by_contra large
    have raised : stoll digits = .error outOfRange := if_neg large
    cases raised.symm.trans read
  exact ⟨bounded older, bounded newer⟩

theorem ReadBounded.cons
    (head : ∀ line2 line3 rest change old new, report = line2 :: line3 :: rest →
      OnlyOffset line1 line2 line3 change → IsOffsetChanged line2 (change.indent + 2) old new →
      value old < 2 ^ 63 ∧ value new < 2 ^ 63)
    (tail : ReadBounded report) : ReadBounded (line1 :: report) := by
  intro before line1' line2 line3 after change old new split only changed
  cases before with
  | nil =>
    cases split
    exact head line2 line3 after change old new rfl only changed
  | cons first before =>
    cases split
    exact tail before line1' line2 line3 after change old new rfl only changed

/-- If the loop returns, it has read all offsets that it replaces. -/
theorem summariseOffsetLoop_bounded {state final : OffsetState}
    (ran : summariseOffsetLoop report state = .ok final) : ReadBounded report := by
  fun_induction summariseOffsetLoop report state with
  | case1 =>
    rintro before line1 line2 line3 after change old new split
    exact absurd split.symm (List.append_ne_nil_of_right_ne_nil _ (List.cons_ne_nil _ _))
  | case2 line1 line2 line3 rest state changed kept =>
    obtain ⟨found, read, ran⟩ := bind_eq_ok ran
    have head : ∀ line2' line3' rest' change old new,
        line2 :: line3 :: rest = line2' :: line3' :: rest' → OnlyOffset line1 line2' line3' change →
        IsOffsetChanged line2' (change.indent + 2) old new → value old < 2 ^ 63 ∧
          value new < 2 ^ 63 := by
      rintro _ _ _ change old new ⟨⟩ only isOffset
      exact offsetChange_bounded read only isOffset
    cases found with
    | none => exact .cons head (kept ran)
    | some change =>
      -- no member starts at the line of its offset
      refine .cons head (.cons ?_ (changed change ran))
      rintro line3' line4 rest' change' old new ⟨⟩ only _
      have spec := offsetChange_spec fun change' old new only isOffset =>
        offsetChange_bounded read only isOffset
      obtain ⟨found, again, spec⟩ := spec
      cases read.symm.trans again
      obtain ⟨_, ⟨_, _, isOffset, _⟩, _⟩ := (spec change).mp rfl
      exact absurd isOffset only.1.no_offset
  | case3 line report state other ih =>
    refine .cons ?_ (ih ran)
    rintro line2 line3 rest change old new rfl
    exact absurd rfl (other line2 line3 rest)

/-- The summary is completed if and only if the offsets that it reads are below 2^63. Offsets
of members that have further details are not read. -/
theorem summariseOffsetChanges_returns_iff (report : List String) :
    (∃ lines, summariseOffsetChanges report = .ok lines) ↔ ReadBounded report := by
  constructor
  · rintro ⟨lines, ran⟩
    obtain ⟨final, ran, _⟩ := bind_eq_ok ran
    exact summariseOffsetLoop_bounded ran
  · intro bounded
    obtain ⟨pieces, final, _, ran, _⟩ := loopRuns report bounded {} [] ⟨by simp, rfl⟩
    exact ⟨final.newReport, by rw [summariseOffsetChanges, ran]; rfl⟩

theorem summariseOffsetChanges_error {report : List String} (unbounded : ¬ ReadBounded report) :
    summariseOffsetChanges report = .error outOfRange := by
  cases ran : summariseOffsetLoop report {} with
  | ok final => exact absurd (summariseOffsetLoop_bounded ran) unbounded
  | error reason =>
    rw [summariseOffsetChanges, ran, summariseOffsetLoop_throws ran]
    rfl

end Reading

/-- Where the first line is about a member, the lines are not divided in another way. -/
theorem Pairs.moved_mem {before after : List String} {line1 line2 line3 : String}
    {pieces : List OffsetPiece} {change : OffsetChange}
    (pairs : Pairs (before ++ line1 :: line2 :: line3 :: after) pieces)
    (only : OnlyOffset line1 line2 line3 change) :
    .moved change line1 line2 ∈ pieces := by
  generalize whole : before ++ line1 :: line2 :: line3 :: after = report at pairs
  induction pairs generalizing before with
  | nil => exact absurd whole (List.append_ne_nil_of_right_ne_nil _ (List.cons_ne_nil _ _))
  | moved only' pairs ih =>
    cases before with
    | nil =>
      cases whole
      rw [only.unique only']
      exact List.mem_cons_self
    | cons first before =>
      cases before with
      | nil =>
        cases whole
        obtain ⟨_, _, offset, _⟩ := only'.2.1
        exact absurd offset only.1.no_offset
      | cons second before =>
        have rest := (List.cons.inj (List.cons.inj whole).2).2
        exact List.mem_cons_of_mem _ (ih rest)
  | other apart pairs ih =>
    cases before with
    | nil =>
      cases whole
      exact absurd only (apart _ _ _ _ rfl)
    | cons first before =>
      cases whole
      exact List.mem_cons_of_mem _ (ih rfl)

/-- The lines of a run say how far its members have moved. -/
theorem IsRun.distance_mem {run : List OffsetPiece} (isRun : IsRun run) {change : OffsetChange}
    {line1 line2 : String} (present : .moved change line1 line2 ∈ run) :
    spaces change.indent ++ "  offset changed by " ++ toString change.offset ∈ runLines run := by
  rcases isRun with ⟨line, rfl⟩ | ⟨indent, offset, members, _, same⟩
  · cases List.mem_singleton.mp present
  · have alike : ∀ piece ∈ run, ∃ member, piece.change = some ⟨indent, offset, member⟩ := by
      intro piece among
      have mapped := List.mem_map_of_mem (f := OffsetPiece.change) among
      rw [same, List.mem_map] at mapped
      obtain ⟨member, _, found⟩ := mapped
      exact ⟨member, found.symm⟩
    obtain ⟨_, found⟩ := alike _ present
    cases found
    cases run with
    | nil => cases present
    | cons first rest =>
      obtain ⟨member, found⟩ := alike first List.mem_cons_self
      cases first with
      | other line => cases found
      | moved own line1' line2' =>
        cases found
        simp [runLines, offsetLines]

theorem summarisesExactly_of_lt (bounded : old.toNat < 2 ^ 63 ∧ new.toNat < 2 ^ 63) :
    SummarisesExactly old new := by
  intro report before after line1 line3 member limit indent reads isMember inside shallow
    beforeBounded afterBounded
  have all : OffsetsBounded (before ++ line1 :: offsetLine indent old new :: line3 :: after) := by
    intro line present indent' old' new' changed
    rcases List.mem_append.mp present with early | late
    · exact beforeBounded line early indent' old' new' changed
    · rcases List.mem_cons.mp late with first | later
      · exact afterBounded line (first ▸ List.mem_cons_self) indent' old' new' changed
      · rcases List.mem_cons.mp later with rfl | rest
        · obtain ⟨_, rfl, rfl⟩ := changed.unique offsetLine_changed
          rw [value_print, value_print]
          exact bounded
        · exact afterBounded line (List.mem_cons_of_mem _ rest) indent' old' new' changed
  obtain ⟨pieces, final, pairs, ran, made⟩ := loopRuns _ all.readBounded {} [] ⟨by simp, rfl⟩
  have only : OnlyOffset line1 (offsetLine indent old new) line3
      ⟨indent, new.toNat - old.toNat, member⟩ := by
    refine ⟨isMember, ⟨print old, print new, offsetLine_changed, ?_⟩, inside, shallow⟩
    rw [value_print, value_print]
  have moved := pairs.moved_mem only
  obtain ⟨run, among, within⟩ : ∃ run ∈ pieces.splitBy together,
      .moved ⟨indent, new.toNat - old.toNat, member⟩ line1 (offsetLine indent old new) ∈ run := by
    rw [← List.flatten_splitBy together pieces] at moved
    exact List.mem_flatten.mp moved
  have isRun := isRun_of_isChain (List.ne_nil_of_mem_splitBy among)
    (List.isChain_of_mem_splitBy among)
  refine ⟨pieces, _, pairs, moved, ?_, rfl, ?_, by omega, by omega⟩
  · rw [postProcess, reads, summariseOffsetChanges, ran]
    exact congrArg Except.ok made
  · have distance := isRun.distance_mem within
    exact List.mem_flatMap.mpr ⟨run, among, distance⟩

section Report

variable {report : List String} {limit : Nat}

theorem summariseCRCLoop_keeps (sections : ∀ line ∈ report, isSection line = false)
    (crcs : ∀ line ∈ report, (regexMatch crcRe line).isSome = false) (newReport : List String) :
    summariseCRCLoop limit report [] newReport = newReport ++ report := by
  induction report generalizing newReport with
  | nil => simp [summariseCRCLoop, emitCRCOnly]
  | cons line report ih =>
    obtain ⟨notSection, sections⟩ := List.forall_mem_cons.mp sections
    obtain ⟨_, crcs⟩ := List.forall_mem_cons.mp crcs
    have rest := ih sections crcs (newReport ++ [line])
    rw [List.append_assoc, List.singleton_append] at rest
    match report with
    | [] | [_] =>
      rw [summariseCRCLoop, if_neg (by simp [notSection])]
      · exact rest
      · simp
    | line2 :: line3 :: later =>
      have notCRC : isCRCOnly line line2 line3 = false := by
        rw [isCRCOnly, crcs line2 List.mem_cons_self, Bool.and_false, Bool.false_and]
      rw [summariseCRCLoop, if_neg (by simp [notSection]), if_neg (by simp [notCRC])]
      exact rest

theorem clearSymbols_nil : clearSymbols (fun _ => []) = fun _ => [] := by
  funext which
  simp [clearSymbols]

theorem groupSymbolsLoop_keeps (symbols : ∀ line ∈ report, regexMatch addedRemovedRe line = none)
    (newReport : List String) :
    groupSymbolsLoop report (fun _ => []) newReport = newReport ++ report := by
  have nothing : emitSymbols (fun _ => []) = [] := rfl
  induction report generalizing newReport with
  | nil => rw [groupSymbolsLoop, nothing]
  | cons line report ih =>
    obtain ⟨apart, symbols⟩ := List.forall_mem_cons.mp symbols
    have rest := ih symbols (newReport ++ [line])
    rw [List.append_assoc, List.singleton_append] at rest
    match report with
    | [] =>
      rw [groupSymbolsLoop, nothing, clearSymbols_nil, List.append_nil]
      · exact rest
      · simp
    | line2 :: later =>
      have other : addedRemovedSymbol line line2 = none := by rw [addedRemovedSymbol, apart]
      simp only [groupSymbolsLoop, other, nothing, clearSymbols_nil, List.append_nil]
      exact rest

end Report

/-- The report of a member that has moved, of the type of a variable. -/
def memberReport (old new : UInt64) : List String :=
  ["variable symbol 'struct S v' changed", "  type 'struct S' changed",
    "    member 'int x' changed", offsetLine 4 old new, ""]

theorem toList_offsetLine : (offsetLine 4 old new).toList = "      offset changed from ".toList ++
    ((print old).toList ++ (" to ".toList ++ (print new).toList)) := by
  rw [offsetLine, changeText]
  simp only [String.toList_append, List.append_assoc]
  rfl

theorem offsetLine_not_section : isSection (offsetLine 4 old new) = false := by
  rw [Bool.eq_false_iff, Ne, isSection_iff]
  rintro ⟨⟨c, rest, split, notSpace, _⟩, _⟩
  rw [toList_offsetLine] at split
  exact notSpace (List.cons.inj split).1.symm

theorem offsetLine_not_crc : (regexMatch crcRe (offsetLine 4 old new)).isSome = false := by
  rw [Bool.eq_false_iff, Ne, crc_iff]
  rintro ⟨before, after, split, _⟩
  have lists := congrArg String.toList split
  rw [toList_offsetLine] at lists
  simp only [String.toList_append, List.append_assoc] at lists
  have third := congrArg (fun line => (line.drop 2).head?) lists
  have clash : some ' ' = some 'C' := third
  cases clash

/-- The line ends in a digit. -/
theorem offsetLine_not_symbol : regexMatch addedRemovedRe (offsetLine 4 old new) = none := by
  rw [← Option.not_isSome_iff_eq_none, addedRemoved_isSome]
  rintro ⟨kind, symbol, which, split, _, direction⟩
  have last : ∀ c, (offsetLine 4 old new).toList.getLast? = some c → c.isDigit = true := by
    intro c ends
    have nonempty : (print new).toList ≠ [] := by
      rw [toList_print]
      exact Nat.toDigits_ne_nil
    rw [toList_offsetLine, ← List.append_assoc, ← List.append_assoc,
      List.getLast?_append_of_ne_nil _ nonempty] at ends
    exact digits_of_print new c (List.mem_of_getLast? ends)
  have ends : (offsetLine 4 old new).toList.getLast? = some 'd' := by
    rw [split, String.toList_append]
    rcases direction with rfl | rfl
    all_goals
      rw [List.getLast?_append]
      rfl
  exact absurd (last 'd' ends) (by decide)

theorem memberReport_reaches (limit : Nat) :
    groupRemovedAddedSymbols (summariseCRCChanges (memberReport old new) limit) =
      memberReport old new := by
  have crc : summariseCRCChanges (memberReport old new) limit = memberReport old new := by
    refine (summariseCRCLoop_keeps ?_ ?_ []).trans (List.nil_append _)
    · simp only [memberReport, List.forall_mem_cons]
      exact ⟨by decide +kernel, by decide +kernel, by decide +kernel, offsetLine_not_section,
        by decide +kernel, List.forall_mem_nil _⟩
    · simp only [memberReport, List.forall_mem_cons]
      exact ⟨by decide +kernel, by decide +kernel, by decide +kernel, offsetLine_not_crc,
        by decide +kernel, List.forall_mem_nil _⟩
  rw [crc]
  refine (groupSymbolsLoop_keeps ?_ []).trans (List.nil_append _)
  simp only [memberReport, List.forall_mem_cons]
  exact ⟨by decide +kernel, by decide +kernel, by decide +kernel, offsetLine_not_symbol,
    by decide +kernel, List.forall_mem_nil _⟩

theorem memberReport_only (old new : UInt64) :
    OnlyOffset "    member 'int x' changed" (offsetLine 4 old new) ""
      ⟨4, new.toNat - old.toNat, "'int x'"⟩ := by
  have isMember : IsMemberChanged "    member 'int x' changed" 4 "'int x'" :=
    ⟨by decide +kernel, "int x", by decide +kernel, List.all_eq_true.mp (by decide +kernel)⟩
  have shallow : indentOf "" ≤ 4 := by decide
  refine ⟨isMember, ⟨_, _, offsetLine_changed, ?_⟩, by simp, shallow⟩
  rw [value_print, value_print]

theorem postProcess_error (large : ¬ (old.toNat < 2 ^ 63 ∧ new.toNat < 2 ^ 63)) (limit : Nat) :
    postProcess (memberReport old new) limit = .error outOfRange := by
  rw [postProcess, memberReport_reaches]
  refine summariseOffsetChanges_error fun bounded => large ?_
  have read := bounded ["variable symbol 'struct S v' changed", "  type 'struct S' changed"]
    _ _ _ [] _ _ _ rfl (memberReport_only old new) offsetLine_changed
  rwa [value_print, value_print] at read

theorem not_summarisesExactly (large : ¬ (old.toNat < 2 ^ 63 ∧ new.toNat < 2 ^ 63)) :
    ¬ SummarisesExactly old new := by
  intro exactly_
  obtain ⟨_, _, _, _, completed, _⟩ := exactly_ (memberReport old new)
    ["variable symbol 'struct S v' changed", "  type 'struct S' changed"] []
    "    member 'int x' changed" "" "'int x'" 3 4 (memberReport_reaches 3)
      (memberReport_only old new).1
    (by simp) (by decide) (offsetsBounded_of_captures (by decide +kernel))
    (offsetsBounded_of_captures (by decide +kernel))
  rw [postProcess_error large] at completed
  cases completed

/-- Every offset can be in a document. -/
theorem readMemberOffset_print (offset : UInt64) :
    AbiXml.readMemberOffset true
      (.mk "data-member" [("layout-offset-in-bits", print offset)] []) = .ok offset := by
  rw [AbiXml.readMemberOffset, if_pos rfl]
  change AbiXml.getParsedValueOrDie AbiXml.parseUInt64 _ _ (print offset) = .ok offset
  rw [AbiXml.getParsedValueOrDie, parseUInt64_print]

theorem Member.equals_prints {h : Handlers CompareM} {self other : Member} {result : Result}
    {s s' : State} (ran : (self.equals h other).run s = .ok (result, s'))
    (moved : self.offset ≠ other.offset) :
    ⟨changeText "offset" self.offset other.offset, none⟩ ∈ result.diff.details := by
  unfold Member.equals at ran
  obtain ⟨⟨answer, s''⟩, _, last⟩ := bind_eq_ok ran
  cases last
  by_cases resized : self.bitsize = other.bitsize
  · cases compared : answer.2.isSome
    all_goals simp [Result.maybeAddEdgeDiff, Result.maybeAddNodeDiff, Result.addNodeDiff, Diff.add,
      moved, resized, compared]
  · cases compared : answer.2.isSome
    all_goals simp [Result.maybeAddEdgeDiff, Result.maybeAddNodeDiff, Result.addNodeDiff, Diff.add,
      moved, resized, compared]

/-- The reader admits and the report prints any two offsets; the summary is right if and only
if both are below 2^63. A report is summarised if and only if those offsets in it are that are
all that has changed in a member. -/
theorem offset_summary_iff (old new : UInt64) :
    (∀ offset ∈ [old, new], ∃ dataMember,
      AbiXml.readMemberOffset true dataMember = .ok offset) ∧
    (∀ (h : Handlers CompareM) (self other : Member) (s s' : State) (result : Result),
      self.offset = old → other.offset = new → old ≠ new →
      (self.equals h other).run s = .ok (result, s') →
      ⟨changeText "offset" old new, none⟩ ∈ result.diff.details) ∧
    (SummarisesExactly old new ↔ old.toNat < 2 ^ 63 ∧ new.toNat < 2 ^ 63) ∧
    ∀ report limit, (∃ lines, postProcess report limit = .ok lines) ↔
      ReadBounded (groupRemovedAddedSymbols (summariseCRCChanges report limit)) := by
  refine ⟨fun offset _ => ⟨_, readMemberOffset_print offset⟩, ?_, ⟨?_, summarisesExactly_of_lt⟩,
    fun report limit => summariseOffsetChanges_returns_iff _⟩
  · rintro h self other s s' result rfl rfl moved ran
    exact Member.equals_prints ran moved
  · intro exactly_
    by_contra large
    exact not_summarisesExactly large exactly_

section Files

open AbiXml (Element variableOf)

/-- A variable of a struct with a member at the offset. -/
def movedMember (offset : String) : Element :=
  variableOf "S" [
    .mk "class-decl" [("id", "S"), ("name", "S"), ("is-struct", "yes"), ("size-in-bits", "64")] [
      .mk "data-member" [("access", "public"), ("layout-offset-in-bits", offset)] [
        .mk "var-decl" [("name", "x"), ("type-id", "i")] []]],
    .mk "type-decl" [("id", "i"), ("name", "int"), ("size-in-bits", "32")] []]

def movedFiles : Stgdiff.Environment where
  xml file :=
    if file = "old.xml" then .ok (some (some (movedMember "0")))
    else if file = "new.xml" then .ok (some (some (movedMember "9223372036854775808")))
    else .error "No such file or directory"
  elf _ := .unopened
  elfVersionMatches := true
  iteration := .inOrder
  writes _ _ := true

/-- The program is aborted when it reports that a member moves to the offset 2^63. -/
theorem summary_aborts :
    Stgdiff.main movedFiles 20 "stgdiff"
        ["--abi", "old.xml", "new.xml", "--format", "short", "--output", "-"] = .error outOfRange ∧
    (∀ limit, postProcess ["variable symbol 'struct S v' changed",
      "  type 'struct S' changed", "    member 'int x' changed",
      "      offset changed from 0 to 9223372036854775808", ""] limit = .error outOfRange) ∧
    ¬ SummarisesExactly 0 9223372036854775808 := by
  refine ⟨by decide +kernel, fun limit => ?_, not_summarisesExactly (by decide)⟩
  have shown : memberReport 0 9223372036854775808 = ["variable symbol 'struct S v' changed",
      "  type 'struct S' changed", "    member 'int x' changed",
      "      offset changed from 0 to 9223372036854775808", ""] := by decide +kernel
  rw [← shown]
  exact postProcess_error (by decide) limit

end Files

end Stg
