import Mathlib.Data.List.Basic
import Mathlib.Data.List.Infix
import Mathlib.Tactic.Common

set_option autoImplicit false

/- Sequences of simple patterns, matched by backtracking. All ways to match are listed in
the order in which they are tried; a repetition is greedy. -/
namespace Regex

variable {α : Type}

inductive Atom (α : Type) where
  | text (t : List α)
  | one (p : α → Bool)
  | many (p : α → Bool)
  | either (texts : List (List α))

/-- A part of a pattern, with or without a capture of what it matches. -/
inductive Piece (α : Type) where
  | plain (atom : Atom α)
  | group (atoms : List (Atom α))

section Splits

/-- The elements that a repetition takes and the rest, the longest choice first. -/
def manySplits (p : α → Bool) : List α → List (List α × List α)
  | [] => [([], [])]
  | c :: cs =>
    if p c then (manySplits p cs).map (fun split => (c :: split.1, split.2)) ++ [([], c :: cs)]
    else [([], c :: cs)]

variable [DecidableEq α]

def textSplits (t input : List α) : List (List α × List α) :=
  if t.isPrefixOf input then [(t, input.drop t.length)] else []

def oneSplits (p : α → Bool) : List α → List (List α × List α)
  | [] => []
  | c :: cs => if p c then [([c], cs)] else []

def Atom.splits : Atom α → List α → List (List α × List α)
  | .text t, input => textSplits t input
  | .one p, input => oneSplits p input
  | .many p, input => manySplits p input
  | .either texts, input => texts.flatMap fun t => textSplits t input

def sequenceSplits : List (Atom α) → List α → List (List α × List α)
  | [], input => [([], input)]
  | atom :: atoms, input => (atom.splits input).flatMap fun split =>
    (sequenceSplits atoms split.2).map fun later => (split.1 ++ later.1, later.2)

/-- The captures of every way to match a prefix of the input, with the rest of the input. -/
def ways : List (Piece α) → List α → List (List (List α) × List α)
  | [], input => [([], input)]
  | .plain atom :: pieces, input => (atom.splits input).flatMap fun split => ways pieces split.2
  | .group atoms :: pieces, input => (sequenceSplits atoms input).flatMap fun split =>
    (ways pieces split.2).map fun later => (split.1 :: later.1, later.2)

/-- The captures of the first way to match the whole input. -/
def match_ (pieces : List (Piece α)) (input : List α) : Option (List (List α)) :=
  ((ways pieces input).find? (·.2.isEmpty)).map (·.1)

end Splits

section Denotation

def Atom.Accepts : Atom α → List α → Prop
  | .text t, x => x = t
  | .one p, x => ∃ c, x = [c] ∧ p c = true
  | .many p, x => ∀ c ∈ x, p c = true
  | .either texts, x => x ∈ texts

def AcceptsAll : List (Atom α) → List α → Prop
  | [], x => x = []
  | atom :: atoms, x => ∃ y z, x = y ++ z ∧ atom.Accepts y ∧ AcceptsAll atoms z

/-- The pieces match a prefix of the input with these captures and leave the rest. -/
def Denotes : List (Piece α) → List α → List (List α) → List α → Prop
  | [], input, captures, rest => captures = [] ∧ rest = input
  | .plain atom :: pieces, input, captures, rest =>
    ∃ x later, input = x ++ later ∧ atom.Accepts x ∧ Denotes pieces later captures rest
  | .group atoms :: pieces, input, captures, rest =>
    ∃ x later captures', input = x ++ later ∧ AcceptsAll atoms x ∧ captures = x :: captures' ∧
      Denotes pieces later captures' rest

variable {pieces : List (Piece α)} {captures : List (List α)} {x later rest : List α}

theorem Denotes.nil : Denotes [] rest [] rest := ⟨rfl, rfl⟩

theorem Denotes.plain {atom : Atom α} (accepts : atom.Accepts x)
    (denotes : Denotes pieces later captures rest) :
    Denotes (.plain atom :: pieces) (x ++ later) captures rest :=
  ⟨x, later, rfl, accepts, denotes⟩

theorem Denotes.group {atoms : List (Atom α)} (accepts : AcceptsAll atoms x)
    (denotes : Denotes pieces later captures rest) :
    Denotes (.group atoms :: pieces) (x ++ later) (x :: captures) rest :=
  ⟨x, later, captures, rfl, accepts, rfl, denotes⟩

end Denotation

section Sound

variable [DecidableEq α] {p : α → Bool} {t x rest input : List α}

omit [DecidableEq α] in
theorem mem_manySplits :
    (x, rest) ∈ manySplits p input ↔ input = x ++ rest ∧ ∀ c ∈ x, p c = true := by
  induction input generalizing x with
  | nil =>
    simp only [manySplits, List.mem_singleton, Prod.mk.injEq]
    constructor
    · rintro ⟨rfl, rfl⟩
      simp
    · intro both
      exact List.append_eq_nil_iff.mp both.1.symm
  | cons c cs ih =>
    have none_ : (x, rest) = ([], c :: cs) → c :: cs = x ++ rest ∧ ∀ c ∈ x, p c = true := by
      intro same
      cases same
      simp
    unfold manySplits
    split
    · rename_i holds
      rw [List.mem_append, List.mem_map, List.mem_singleton]
      constructor
      · rintro (⟨⟨y, rest'⟩, present, same⟩ | same)
        · cases same
          have held := ih.mp present
          refine ⟨congrArg (c :: ·) held.1, ?_⟩
          intro d among
          rcases List.mem_cons.mp among with rfl | among
          · exact holds
          · exact held.2 d among
        · exact none_ same
      · rintro ⟨split, all⟩
        cases x with
        | nil =>
          right
          rw [List.nil_append] at split
          rw [split]
        | cons d y =>
          left
          rw [List.cons_append, List.cons.injEq] at split
          refine ⟨(y, rest), ih.mpr ⟨split.2, fun e among => all e (by simp [among])⟩, ?_⟩
          rw [split.1]
    · rename_i fails
      rw [List.mem_singleton]
      constructor
      · exact none_
      · rintro ⟨split, all⟩
        cases x with
        | nil =>
          rw [List.nil_append] at split
          rw [split]
        | cons d y =>
          rw [List.cons_append, List.cons.injEq] at split
          exact absurd (split.1 ▸ all d (by simp)) fails

theorem mem_textSplits : (x, rest) ∈ textSplits t input ↔ input = x ++ rest ∧ x = t := by
  unfold textSplits
  split
  · rename_i isPrefix
    obtain ⟨later, rfl⟩ := List.isPrefixOf_iff_prefix.mp isPrefix
    rw [List.mem_singleton, Prod.mk.injEq, List.drop_left]
    constructor
    · rintro ⟨rfl, rfl⟩
      exact ⟨rfl, rfl⟩
    · rintro ⟨same, rfl⟩
      exact ⟨rfl, (List.append_cancel_left same).symm⟩
  · rename_i apart
    constructor
    · intro present
      cases present
    · rintro ⟨rfl, rfl⟩
      exact absurd (List.isPrefixOf_iff_prefix.mpr (List.prefix_append _ _)) apart

theorem Atom.mem_splits {atom : Atom α} :
    (x, rest) ∈ atom.splits input ↔ input = x ++ rest ∧ atom.Accepts x := by
  cases atom with
  | text t => exact mem_textSplits
  | one p =>
    cases input with
    | nil =>
      simp only [Atom.splits, oneSplits, Atom.Accepts, List.not_mem_nil, false_iff]
      rintro ⟨split, d, rfl, _⟩
      cases split
    | cons c cs =>
      simp only [Atom.splits, oneSplits, Atom.Accepts]
      split
      · rename_i holds
        rw [List.mem_singleton, Prod.mk.injEq]
        constructor
        · rintro ⟨rfl, rfl⟩
          exact ⟨rfl, c, rfl, holds⟩
        · rintro ⟨split, d, rfl, _⟩
          rw [List.singleton_append, List.cons.injEq] at split
          exact ⟨by rw [split.1], split.2.symm⟩
      · rename_i fails
        simp only [List.not_mem_nil, false_iff]
        rintro ⟨split, d, rfl, holds⟩
        rw [List.singleton_append, List.cons.injEq] at split
        exact fails (split.1 ▸ holds)
  | many p => exact mem_manySplits
  | either texts =>
    simp only [Atom.splits, Atom.Accepts, List.mem_flatMap, mem_textSplits]
    constructor
    · rintro ⟨t, among, split, rfl⟩
      exact ⟨split, among⟩
    · rintro ⟨split, among⟩
      exact ⟨x, among, split, rfl⟩

theorem mem_sequenceSplits {atoms : List (Atom α)} :
    (x, rest) ∈ sequenceSplits atoms input ↔ input = x ++ rest ∧ AcceptsAll atoms x := by
  induction atoms generalizing x rest input with
  | nil =>
    simp only [sequenceSplits, AcceptsAll, List.mem_singleton, Prod.mk.injEq]
    constructor
    · rintro ⟨rfl, rfl⟩
      exact ⟨rfl, rfl⟩
    · rintro ⟨split, rfl⟩
      exact ⟨rfl, split.symm⟩
  | cons atom atoms ih =>
    simp only [sequenceSplits, AcceptsAll, List.mem_flatMap, List.mem_map, Prod.exists,
      Prod.mk.injEq, Atom.mem_splits, ih]
    constructor
    · rintro ⟨y, later, ⟨rfl, accepts⟩, z, rest', ⟨rfl, acceptsAll⟩, rfl, rfl⟩
      exact ⟨by simp, y, z, rfl, accepts, acceptsAll⟩
    · rintro ⟨rfl, y, z, rfl, accepts, acceptsAll⟩
      exact ⟨y, z ++ rest, ⟨by simp, accepts⟩, z, rest, ⟨rfl, acceptsAll⟩, rfl, rfl⟩

theorem mem_ways {pieces : List (Piece α)} {captures : List (List α)} :
    (captures, rest) ∈ ways pieces input ↔ Denotes pieces input captures rest := by
  induction pieces generalizing captures rest input with
  | nil =>
    simp [ways, Denotes]
  | cons piece pieces ih =>
    cases piece with
    | plain atom =>
      simp only [ways, Denotes, List.mem_flatMap, Prod.exists, Atom.mem_splits, ih, and_assoc]
    | group atoms =>
      simp only [ways, Denotes, List.mem_flatMap, List.mem_map, Prod.exists, Prod.mk.injEq,
        mem_sequenceSplits, ih]
      constructor
      · rintro ⟨y, later, ⟨rfl, accepts⟩, captures', rest', denotes, rfl, rfl⟩
        exact ⟨y, later, captures', rfl, accepts, rfl, denotes⟩
      · rintro ⟨y, later, captures', rfl, accepts, rfl, denotes⟩
        exact ⟨y, later, ⟨rfl, accepts⟩, captures', rest, denotes, rfl, rfl⟩

variable {pieces : List (Piece α)} {captures : List (List α)}

/-- The pieces match the whole of the input with these captures. -/
def Matches (pieces : List (Piece α)) (input : List α) (captures : List (List α)) : Prop :=
  Denotes pieces input captures []

theorem matches_of_match (found : match_ pieces input = some captures) :
    Matches pieces input captures := by
  obtain ⟨way, held, rfl⟩ := Option.map_eq_some_iff.mp found
  have complete := List.find?_some held
  have among := List.mem_of_find?_eq_some held
  rw [List.isEmpty_iff] at complete
  have denotes := mem_ways.mp among
  rwa [complete] at denotes

theorem match_isSome : (match_ pieces input).isSome ↔
    ∃ captures, Matches pieces input captures := by
  constructor
  · intro found
    obtain ⟨captures, held⟩ := Option.isSome_iff_exists.mp found
    exact ⟨captures, matches_of_match held⟩
  · rintro ⟨captures, denotes⟩
    rw [match_, Option.isSome_map, List.find?_isSome]
    exact ⟨(captures, []), mem_ways.mpr denotes, rfl⟩

/-- A match that is the only one is found. -/
theorem match_eq_some (unique : ∀ captures', Matches pieces input captures' →
      captures' = captures) :
    match_ pieces input = some captures ↔ Matches pieces input captures := by
  constructor
  · exact matches_of_match
  · intro denotes
    obtain ⟨captures', found⟩ := Option.isSome_iff_exists.mp (match_isSome.mpr ⟨captures, denotes⟩)
    rw [found, unique captures' (matches_of_match found)]

omit [DecidableEq α] in
/-- The lengths of what a repetition takes decrease. -/
theorem manySplits_pairwise (p : α → Bool) (input : List α) :
    (manySplits p input).Pairwise fun a b => b.1.length < a.1.length := by
  induction input with
  | nil => exact List.pairwise_singleton _ _
  | cons c cs ih =>
    unfold manySplits
    split
    · rw [List.pairwise_append, List.pairwise_map]
      refine ⟨ih.imp fun less => Nat.succ_lt_succ less, List.pairwise_singleton _ _, ?_⟩
      intro a among b last
      obtain ⟨split, _, rfl⟩ := List.mem_map.mp among
      rw [List.mem_singleton.mp last]
      exact Nat.succ_pos _
    · exact List.pairwise_singleton _ _

theorem ways_many (p : α → Bool) (pieces : List (Piece α)) (input : List α) :
    ways (.group [.many p] :: pieces) input = (manySplits p input).flatMap fun split =>
      (ways pieces split.2).map fun later => (split.1 :: later.1, later.2) := by
  have whole : sequenceSplits [.many p] input = manySplits p input := by
    simp [sequenceSplits, Atom.splits]
  rw [ways, whole]

/-- A leading group that is a repetition captures as much as it can. -/
theorem match_greedy {captures' : List (List α)} {y : List α}
    (found : match_ (.group [.many p] :: pieces) input = some (x :: captures))
    (other : Matches (.group [.many p] :: pieces) input (y :: captures')) :
    y.length ≤ x.length := by
  let longer (a b : List (List α) × List α) : Prop :=
    ((b.1.head?.getD []).length ≤ (a.1.head?.getD []).length)
  have ordered : (ways (.group [.many p] :: pieces) input).Pairwise longer := by
    rw [ways_many, List.pairwise_flatMap]
    constructor
    · intro split _
      rw [List.pairwise_map]
      exact List.pairwise_of_forall fun _ _ => le_refl _
    · refine (manySplits_pairwise p input).imp ?_
      intro a b less way amongA way' amongB
      obtain ⟨_, _, rfl⟩ := List.mem_map.mp amongA
      obtain ⟨_, _, rfl⟩ := List.mem_map.mp amongB
      exact less.le
  obtain ⟨way, held, same⟩ := Option.map_eq_some_iff.mp found
  obtain ⟨_, before, after, split, earlier⟩ := List.find?_eq_some_iff_append.mp held
  have among : (y :: captures', []) ∈ before ++ way :: after := split ▸ mem_ways.mpr other
  rw [split, List.pairwise_append, List.pairwise_cons] at ordered
  rcases List.mem_append.mp among with skipped | among
  · exact absurd (earlier _ skipped) (by simp)
  · rcases List.mem_cons.mp among with first | later
    · rw [← first] at same
      have equal : y = x := (List.cons.inj same).1
      rw [equal]
    · have less : longer way (y :: captures', []) := ordered.2.1.1 _ later
      simpa [longer, same] using less

end Sound

end Regex
