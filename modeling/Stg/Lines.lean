import Stg.PostProcessing
import Stg.Lib.Delimited

set_option autoImplicit false

/- What the patterns of the passes over a report match. -/
namespace Stg

open Regex (Piece Matches Denotes)
open Delimited (append_inj_of_stop)

variable {line : String}

theorem regexMatch_isSome {re : List (Piece Char)} :
    (regexMatch re line).isSome ↔ ∃ captures, Matches re line.toList captures := by
  rw [regexMatch, Option.isSome_map, Regex.match_isSome]

theorem empty_iff : (regexMatch emptyRe line).isSome ↔ line = "" := by
  rw [regexMatch_isSome]
  constructor
  · rintro ⟨_, _, nothing⟩
    exact String.toList_inj.mp nothing.symm
  · rintro rfl
    exact ⟨[], .nil⟩

theorem forall_pieces {property : Char → Bool} {x y : List Char}
    (inX : ∀ c ∈ x, property c = true) (inY : ∀ c ∈ y, property c = true) :
    ∀ c ∈ (String.ofList x ++ String.ofList y).toList, property c = true := by
  simp only [String.toList_append, String.toList_ofList, List.forall_mem_append]
  exact ⟨inX, inY⟩

theorem symbol_iff : (regexMatch symbolRe line).isSome ↔ ∃ before after,
    line = before ++ " symbol " ++ after ∧
      ∀ c ∈ (before ++ after).toList, inLine c = true := by
  rw [regexMatch_isSome]
  constructor
  · rintro ⟨captures, x, _, split, inX, _, _, rfl, rfl, y, _, rfl, inY, _, rfl⟩
    refine ⟨String.ofList x, String.ofList y, ?_, ?_⟩
    · rw [← String.toList_inj, split]
      simp
    · exact forall_pieces inX inY
  · rintro ⟨before, after, rfl, inside⟩
    simp only [String.toList_append, List.forall_mem_append] at inside
    have denotes : Denotes symbolRe
        (before.toList ++ (" symbol ".toList ++ (after.toList ++ []))) [] [] := .plain inside.1 (.plain rfl (.plain inside.2 .nil))
    exact ⟨[], by simpa [Matches] using denotes⟩

theorem crc_iff : (regexMatch crcRe line).isSome ↔ ∃ old new,
    line = "  CRC changed from " ++ old ++ " to " ++ new ∧
      ∀ c ∈ (old ++ new).toList, (!isSpace c) = true := by
  rw [regexMatch_isSome]
  constructor
  · rintro ⟨captures, _, _, split, rfl, x, _, rfl, inX, _, _, rfl, rfl, y, _, rfl, inY, _, rfl⟩
    refine ⟨String.ofList x, String.ofList y, ?_, ?_⟩
    · rw [← String.toList_inj, split]
      simp
    · exact forall_pieces inX inY
  · rintro ⟨old, new, rfl, inside⟩
    simp only [String.toList_append, List.forall_mem_append] at inside
    have denotes : Denotes crcRe ("  CRC changed from ".toList ++ (old.toList ++
        (" to ".toList ++ (new.toList ++ [])))) [] [] :=
      .plain rfl (.plain inside.1 (.plain rfl (.plain inside.2 .nil)))
    exact ⟨[], by simpa [Matches] using denotes⟩

theorem section_iff : (regexMatch sectionRe line).isSome ↔ ∃ c rest, line.toList = c :: rest ∧
    c ≠ ' ' ∧ c ≠ '\n' ∧ ∀ d ∈ rest, inLine d = true := by
  rw [regexMatch_isSome]
  constructor
  · rintro ⟨captures, _, _, split, ⟨c, rfl, start⟩, y, _, rfl, inY, _, rfl⟩
    refine ⟨c, y, by simpa using split, ?_, ?_, inY⟩
    · rintro rfl
      cases start
    · rintro rfl
      cases start
  · rintro ⟨c, rest, split, notSpace, notLine, inside⟩
    have start : (!isSpace c && decide (c ≠ '\n')) = true := by simp [isSpace, notSpace, notLine]
    have denotes : Denotes sectionRe ([c] ++ (rest ++ [])) [] [] :=
      .plain ⟨c, rfl, start⟩ (.plain inside .nil)
    exact ⟨[], by simpa [Matches, split] using denotes⟩

/-- A top-level line that is not about a symbol. -/
theorem isSection_iff : isSection line = true ↔
    (∃ c rest, line.toList = c :: rest ∧ c ≠ ' ' ∧ c ≠ '\n' ∧ ∀ d ∈ rest, inLine d = true) ∧
      ¬ ∃ before after, line = before ++ " symbol " ++ after ∧
        ∀ c ∈ (before ++ after).toList, inLine c = true := by
  rw [← section_iff, ← symbol_iff, isSection, Bool.and_eq_true, Bool.not_eq_true',
    Bool.not_eq_true]

section Indented

theorem eq_spaces {x : List Char} (all : ∀ c ∈ x, isSpace c = true) :
    String.ofList x = spaces x.length := by
  have replicated : x = List.replicate x.length ' ' := by
    apply List.eq_replicate_of_mem
    intro c present
    exact of_decide_eq_true (all c present)
  rw [spaces, ← replicated]

theorem isSpace_spaces (indent : Nat) : ∀ c ∈ (spaces indent).toList, isSpace c = true := by
  intro c present
  rw [spaces, String.toList_ofList, List.mem_replicate] at present
  exact decide_eq_true present.2

@[simp] theorem length_spaces (indent : Nat) : (spaces indent).length = indent := by
  simp [spaces]

/-- The number of spaces that a line starts with. -/
def indentOf (line : String) : Nat := (line.toList.takeWhile isSpace).length

theorem inLine_of_isSpace {c : Char} (space : isSpace c = true) : inLine c = true := by
  obtain rfl : c = ' ' := of_decide_eq_true space
  decide

theorem indent_eq : regexMatch indentRe line =
    if line.toList.all inLine then some [spaces (indentOf line)] else none := by
  have longest : ∀ c ∈ line.toList.takeWhile isSpace, isSpace c = true := fun c present =>
    List.mem_takeWhile_imp present
  split
  · rename_i inside
    have rest : ∀ c ∈ line.toList.dropWhile isSpace, inLine c = true := fun c present =>
      List.all_eq_true.mp inside c ((List.dropWhile_sublist _).mem present)
    have denotes : Denotes indentRe (line.toList.takeWhile isSpace ++
        (line.toList.dropWhile isSpace ++ [])) [line.toList.takeWhile isSpace] [] :=
      .group ⟨_, [], (List.append_nil _).symm, longest, rfl⟩ (.plain rest .nil)
    rw [List.append_nil, List.takeWhile_append_dropWhile] at denotes
    obtain ⟨captures, found⟩ := Option.isSome_iff_exists.mp (Regex.match_isSome.mpr ⟨_, denotes⟩)
    have held := Regex.matches_of_match found
    obtain ⟨x, later, captures', split, ⟨x', _, rfl, inX, rfl⟩, rfl, _, _, _, _, rfl, _⟩ := held
    rw [List.append_nil] at found split
    have longer := Regex.match_greedy found denotes
    have same : x' = line.toList.takeWhile isSpace := by
      have isPrefix : x' <+: line.toList.takeWhile isSpace := by
        rw [split, List.takeWhile_append_of_pos inX]
        exact List.prefix_append _ _
      exact isPrefix.eq_of_length_le longer
    rw [regexMatch, found, Option.map_some, same, List.map_singleton, eq_spaces longest]
    rfl
  · rename_i outside
    rw [← Option.not_isSome_iff_eq_none, regexMatch_isSome]
    rintro ⟨captures, x, later, _, split, ⟨y, _, rfl, inX, rfl⟩, _, z, _, rfl, inZ, _, rfl⟩
    apply outside
    rw [List.all_eq_true]
    intro c present
    rw [split, List.append_nil, List.append_nil, List.mem_append] at present
    exact present.elim (fun among => inLine_of_isSpace (inX c among)) (inZ c)

/-- A line that says that a member has changed. -/
def IsMemberChanged (line : String) (indent : Nat) (member : String) : Prop :=
  line = spaces indent ++ "member " ++ member ++ " changed" ∧
    ∃ name, member = "\x27" ++ name ++ "\x27" ∧ ∀ c ∈ name.toList, inLine c = true

theorem memberChanged_matches {input : List Char} {captures : List (List Char)} :
    Matches memberChangedRe input captures ↔ ∃ x y,
      input = x ++ ("member ".toList ++ (['\x27'] ++ y ++ ['\x27'] ++ " changed".toList)) ∧
      (∀ c ∈ x, isSpace c = true) ∧ (∀ c ∈ y, inLine c = true) ∧
      captures = [x, ['\x27'] ++ y ++ ['\x27']] := by
  constructor
  · rintro ⟨_, _, _, split, ⟨x, _, rfl, inX, rfl⟩, rfl, _, _, rfl, rfl, _, _, _, rfl,
      ⟨_, _, rfl, rfl, y, _, rfl, inY, _, _, rfl, rfl, rfl⟩, rfl, _, _, rfl, rfl, rfl, rfl⟩
    refine ⟨x, y, ?_, inX, inY, ?_⟩
    · simpa using split
    · simp
  · rintro ⟨x, y, rfl, inX, inY, rfl⟩
    have quoted : Regex.AcceptsAll [.text ['\x27'], .many inLine, .text ['\x27']]
        (['\x27'] ++ y ++ ['\x27']) :=
      ⟨['\x27'], y ++ ['\x27'], by simp, rfl, y, ['\x27'], rfl, inY, ['\x27'], [], rfl, rfl, rfl⟩
    have denotes : Denotes memberChangedRe (x ++ ("member ".toList ++
        ((['\x27'] ++ y ++ ['\x27']) ++ (" changed".toList ++ [])))) _ [] :=
      .group ⟨x, [], (List.append_nil _).symm, inX, rfl⟩
        (.plain rfl (.group quoted (.plain rfl .nil)))
    simpa [Matches] using denotes

theorem memberChanged_iff {captures : List String} :
    regexMatch memberChangedRe line = some captures ↔
      ∃ indent member, IsMemberChanged line indent member ∧ captures = [spaces indent, member] := by
  have unique : ∀ c1 c2, Matches memberChangedRe line.toList c1 →
      Matches memberChangedRe line.toList c2 → c1 = c2 := by
    intro c1 c2 first second
    obtain ⟨x, y, split, inX, _, rfl⟩ := memberChanged_matches.mp first
    obtain ⟨x', y', split', inX', _, rfl⟩ := memberChanged_matches.mp second
    have start : "member ".toList = 'm' :: "ember ".toList := rfl
    rw [start, List.cons_append] at split split'
    obtain ⟨rfl, rest⟩ := append_inj_of_stop inX inX' rfl rfl (split.symm.trans split')
    have quoted := List.append_cancel_right (List.append_cancel_left (List.cons.inj rest).2)
    rw [quoted]
  rw [regexMatch, Option.map_eq_some_iff]
  constructor
  · rintro ⟨captures', found, rfl⟩
    obtain ⟨x, y, split, inX, inY, rfl⟩ :=
      memberChanged_matches.mp (Regex.matches_of_match found)
    refine ⟨x.length, String.ofList (['\x27'] ++ y ++ ['\x27']), ⟨?_, String.ofList y, ?_, ?_⟩, ?_⟩
    · rw [← String.toList_inj, split, ← eq_spaces inX]
      simp
    · rw [← String.toList_inj]
      simp
    · simpa using inY
    · simp [eq_spaces inX]
  · rintro ⟨indent, member, ⟨split, name, rfl, inName⟩, rfl⟩
    have denotes := memberChanged_matches.mpr ⟨(spaces indent).toList, name.toList,
      rfl, isSpace_spaces indent, inName, rfl⟩
    have whole : line.toList = (spaces indent).toList ++ ("member ".toList ++
        (['\x27'] ++ name.toList ++ ['\x27'] ++ " changed".toList)) := by
      rw [split]
      simp
    rw [← whole] at denotes
    refine ⟨_, (Regex.match_eq_some fun c held => unique c _ held denotes).mpr denotes, ?_⟩
    rw [List.map_cons, List.map_cons, List.map_nil, String.ofList_toList]
    congr 2
    rw [← String.toList_inj]
    simp

def Digits (text : String) : Prop := text ≠ "" ∧ ∀ c ∈ text.toList, c.isDigit = true

/-- A line that says that an offset has changed. -/
def IsOffsetChanged (line : String) (indent : Nat) (old new : String) : Prop :=
  line = spaces indent ++ "offset changed from " ++ old ++ " to " ++ new ∧ Digits old ∧ Digits new

theorem acceptsAll_digits {x : List Char} :
    Regex.AcceptsAll [.one Char.isDigit, .many Char.isDigit] x ↔
      x ≠ [] ∧ ∀ c ∈ x, c.isDigit = true := by
  constructor
  · rintro ⟨_, _, rfl, ⟨c, rfl, digit⟩, y, _, rfl, digits, rfl⟩
    rw [List.append_nil, List.singleton_append]
    exact ⟨List.cons_ne_nil _ _, List.forall_mem_cons.mpr ⟨digit, digits⟩⟩
  · rintro ⟨something, digits⟩
    cases x with
    | nil => exact absurd rfl something
    | cons c x =>
      have all := List.forall_mem_cons.mp digits
      exact ⟨[c], x, rfl, ⟨c, rfl, all.1⟩, x, [], (List.append_nil _).symm, all.2, rfl⟩

theorem offsetChanged_matches {input : List Char} {captures : List (List Char)} :
    Matches offsetChangedRe input captures ↔ ∃ x old new,
      input = x ++ ("offset changed from ".toList ++ (old ++ (" to ".toList ++ new))) ∧
      (∀ c ∈ x, isSpace c = true) ∧ (old ≠ [] ∧ ∀ c ∈ old, c.isDigit = true) ∧
      (new ≠ [] ∧ ∀ c ∈ new, c.isDigit = true) ∧ captures = [x, old, new] := by
  simp only [← acceptsAll_digits]
  constructor
  · rintro ⟨_, _, _, split, ⟨x, _, rfl, inX, rfl⟩, rfl, _, _, rfl, rfl, old, _, _, rfl, oldDigits,
      rfl, _, _, rfl, rfl, new, _, _, rfl, newDigits, rfl, rfl, rfl⟩
    exact ⟨x, old, new, by simpa using split, inX, oldDigits, newDigits, by simp⟩
  · rintro ⟨x, old, new, rfl, inX, oldDigits, newDigits, rfl⟩
    have denotes : Denotes offsetChangedRe (x ++ ("offset changed from ".toList ++
        (old ++ (" to ".toList ++ (new ++ []))))) _ [] :=
      .group ⟨x, [], (List.append_nil _).symm, inX, rfl⟩
        (.plain rfl (.group oldDigits (.plain rfl (.group newDigits .nil))))
    simpa [Matches] using denotes

theorem offsetChanged_iff {captures : List String} :
    regexMatch offsetChangedRe line = some captures ↔ ∃ indent old new,
      IsOffsetChanged line indent old new ∧ captures = [spaces indent, old, new] := by
  have unique : ∀ c1 c2, Matches offsetChangedRe line.toList c1 →
      Matches offsetChangedRe line.toList c2 → c1 = c2 := by
    intro c1 c2 first second
    obtain ⟨x, old, new, split, inX, oldDigits, _, rfl⟩ := offsetChanged_matches.mp first
    obtain ⟨x', old', new', split', inX', oldDigits', _, rfl⟩ := offsetChanged_matches.mp second
    have start : "offset changed from ".toList = 'o' :: "ffset changed from ".toList := rfl
    have middle : " to ".toList = ' ' :: "to ".toList := rfl
    rw [start, middle, List.cons_append] at split split'
    obtain ⟨rfl, rest⟩ := append_inj_of_stop inX inX' rfl rfl (split.symm.trans split')
    have numbers := List.append_cancel_left (List.cons.inj rest).2
    rw [List.cons_append] at numbers
    obtain ⟨rfl, behind⟩ := append_inj_of_stop oldDigits.2 oldDigits'.2 rfl rfl numbers
    have same : new = new' := List.append_cancel_left (List.cons.inj behind).2
    rw [same]
  have nonempty : ∀ text : String, text ≠ "" ↔ text.toList ≠ [] := by
    intro text
    rw [Ne, ← String.toList_inj, String.toList_empty]
  rw [regexMatch, Option.map_eq_some_iff]
  constructor
  · rintro ⟨captures', found, rfl⟩
    obtain ⟨x, old, new, split, inX, oldDigits, newDigits, rfl⟩ :=
      offsetChanged_matches.mp (Regex.matches_of_match found)
    refine ⟨x.length, String.ofList old, String.ofList new, ⟨?_, ⟨?_, ?_⟩, ?_, ?_⟩, ?_⟩
    · rw [← String.toList_inj, split, ← eq_spaces inX]
      simp
    · rw [nonempty, String.toList_ofList]
      exact oldDigits.1
    · rw [String.toList_ofList]
      exact oldDigits.2
    · rw [nonempty, String.toList_ofList]
      exact newDigits.1
    · rw [String.toList_ofList]
      exact newDigits.2
    · simp [eq_spaces inX]
  · rintro ⟨indent, old, new, ⟨split, oldDigits, newDigits⟩, rfl⟩
    have denotes := offsetChanged_matches.mpr ⟨(spaces indent).toList, old.toList, new.toList,
      rfl, isSpace_spaces indent, ⟨(nonempty old).mp oldDigits.1, oldDigits.2⟩,
      ⟨(nonempty new).mp newDigits.1, newDigits.2⟩, rfl⟩
    have whole : line.toList = (spaces indent).toList ++ ("offset changed from ".toList ++
        (old.toList ++ (" to ".toList ++ new.toList))) := by
      rw [split]
      simp
    rw [← whole] at denotes
    refine ⟨_, (Regex.match_eq_some fun c held => unique c _ held denotes).mpr denotes, ?_⟩
    simp

end Indented

section Symbols

/-- A line that says that a symbol was added or removed. -/
def IsAddedRemoved (line kind symbol which : String) : Prop :=
  line = kind ++ " symbol " ++ symbol ++ " was " ++ which ∧
    (∀ c ∈ (kind ++ symbol).toList, inLine c = true) ∧ (which = "added" ∨ which = "removed")

theorem addedRemoved_matches {input : List Char} {captures : List (List Char)} :
    Matches addedRemovedRe input captures ↔ ∃ x y w,
      input = x ++ (" symbol ".toList ++ (y ++ (" was ".toList ++ w))) ∧
      (∀ c ∈ x, inLine c = true) ∧ (∀ c ∈ y, inLine c = true) ∧
      w ∈ ["added".toList, "removed".toList] ∧ captures = [x, y, w] := by
  constructor
  · rintro ⟨_, _, _, split, ⟨x, _, rfl, inX, rfl⟩, rfl, _, _, rfl, rfl, _, _, _, rfl,
      ⟨y, _, rfl, inY, rfl⟩, rfl, _, _, rfl, rfl, _, _, _, rfl, ⟨w, _, rfl, inW, rfl⟩,
        rfl, rfl, rfl⟩
    exact ⟨x, y, w, by simpa using split, inX, inY, inW, by simp⟩
  · rintro ⟨x, y, w, rfl, inX, inY, inW, rfl⟩
    have single : ∀ (atom : Regex.Atom Char) {z : List Char}, atom.Accepts z →
        Regex.AcceptsAll [atom] z := fun _ _ accepts =>
          ⟨_, [], (List.append_nil _).symm, accepts, rfl⟩
    have denotes : Denotes addedRemovedRe (x ++ (" symbol ".toList ++
        (y ++ (" was ".toList ++ (w ++ []))))) _ [] :=
      .group (single (.many inLine) inX) (.plain rfl
        (.group (single (.many inLine) inY) (.plain rfl
          (.group (single (.either _) inW) .nil))))
    simpa [Matches] using denotes

theorem matches_of_isAddedRemoved {kind symbol which : String}
    (reads : IsAddedRemoved line kind symbol which) :
    Matches addedRemovedRe line.toList [kind.toList, symbol.toList, which.toList] := by
  obtain ⟨split, inside, direction⟩ := reads
  simp only [String.toList_append, List.forall_mem_append] at inside
  refine addedRemoved_matches.mpr ⟨_, _, _, ?_, inside.1, inside.2, ?_, rfl⟩
  · rw [split]
    simp
  · rcases direction with rfl | rfl
    · exact List.mem_cons_self
    · exact List.mem_cons_of_mem _ List.mem_cons_self

/-- The kind extends as far as it can. -/
theorem addedRemoved_spec {captures : List String}
    (matched : regexMatch addedRemovedRe line = some captures) : ∃ kind symbol which,
      captures = [kind, symbol, which] ∧ IsAddedRemoved line kind symbol which ∧
      ∀ kind' symbol' which', IsAddedRemoved line kind' symbol' which' →
        kind'.length ≤ kind.length := by
  obtain ⟨captures', found, rfl⟩ := Option.map_eq_some_iff.mp matched
  obtain ⟨x, y, w, split, inX, inY, inW, rfl⟩ :=
    addedRemoved_matches.mp (Regex.matches_of_match found)
  refine ⟨String.ofList x, String.ofList y, String.ofList w, rfl, ⟨?_, ?_, ?_⟩, ?_⟩
  · rw [← String.toList_inj, split]
    simp
  · exact forall_pieces inX inY
  · rcases List.mem_cons.mp inW with rfl | inW
    · exact .inl rfl
    · rw [List.mem_singleton.mp inW]
      exact .inr rfl
  · intro kind' symbol' which' reads
    have longest := Regex.match_greedy found (matches_of_isAddedRemoved reads)
    rwa [String.length_toList, ← String.length_ofList] at longest

theorem addedRemoved_isSome : (regexMatch addedRemovedRe line).isSome ↔
    ∃ kind symbol which, IsAddedRemoved line kind symbol which := by
  constructor
  · intro some_
    obtain ⟨captures, found⟩ := Option.isSome_iff_exists.mp some_
    obtain ⟨kind, symbol, which, _, reads, _⟩ := addedRemoved_spec found
    exact ⟨kind, symbol, which, reads⟩
  · rintro ⟨kind, symbol, which, reads⟩
    exact regexMatch_isSome.mpr ⟨_, matches_of_isAddedRemoved reads⟩

end Symbols

end Stg
