import Mathlib.Data.List.TakeWhile
import Mathlib.Tactic.Common

set_option autoImplicit false

/- Where parts of a text end: at a character that cannot belong to them, or at a separator
or closing bracket outside their own brackets. -/
namespace Delimited

variable {α : Type}

section Stop

variable {p : α → Bool} {x x' l l' : List α} {c c' : α}

theorem takeWhile_append_cons (all : ∀ d ∈ x, p d = true) (stop : p c = false) :
    (x ++ c :: l).takeWhile p = x := by
  rw [List.takeWhile_append_of_pos all, List.takeWhile_cons_of_neg (by simp [stop]),
    List.append_nil]

/-- Where a run of characters ends is determined by what stands behind it. -/
theorem append_inj_of_stop (all : ∀ d ∈ x, p d = true) (all' : ∀ d ∈ x', p d = true)
    (stop : p c = false) (stop' : p c' = false) (same : x ++ c :: l = x' ++ c' :: l') :
    x = x' ∧ c :: l = c' :: l' := by
  have left := congrArg (List.takeWhile p) same
  rw [takeWhile_append_cons all stop, takeWhile_append_cons all' stop'] at left
  subst left
  exact ⟨rfl, List.append_cancel_left same⟩

/-- The same from the right. -/
theorem append_inj_of_stop_right (all : ∀ d ∈ x, p d = true) (all' : ∀ d ∈ x', p d = true)
    (stop : p c = false) (stop' : p c' = false) (same : l ++ c :: x = l' ++ c' :: x') :
    x = x' ∧ l = l' ∧ c = c' := by
  have reversed := congrArg List.reverse same
  simp only [List.reverse_append, List.reverse_cons, List.append_assoc, List.singleton_append]
    at reversed
  have inside : ∀ d ∈ x.reverse, p d = true := fun d among => all d (List.mem_reverse.mp among)
  have inside' : ∀ d ∈ x'.reverse, p d = true := fun d among => all' d (List.mem_reverse.mp among)
  obtain ⟨ends, rest⟩ := append_inj_of_stop inside inside' stop stop' reversed
  rw [List.cons.injEq, List.reverse_inj] at rest
  exact ⟨List.reverse_inj.mp ends, rest.2, rest.1⟩

end Stop

/-- The characters that give a text its structure. -/
structure Marks (α : Type) where
  opening : α
  closing : α
  separator : α

section Item

variable [DecidableEq α] (marks : Marks α)

/-- The text before the next separator or closing bracket outside brackets. -/
def item : Nat → List α → List α
  | _, [] => []
  | depth, c :: cs =>
    if c = marks.opening then c :: item (depth + 1) cs
    else if c = marks.closing then
      match depth with
      | 0 => []
      | depth + 1 => c :: item depth cs
    else if c = marks.separator ∧ depth = 0 then []
    else c :: item depth cs

/-- The text belongs to the item and changes the depth. -/
def Shifts (text : List α) (before after : Nat) : Prop :=
  ∀ depth rest, item marks (depth + before) (text ++ rest) =
    text ++ item marks (depth + after) rest

variable {marks} {text text' : List α} {before middle after : Nat}

theorem item_opening (depth : Nat) (rest : List α) :
    item marks depth (marks.opening :: rest) = marks.opening :: item marks (depth + 1) rest := by
  cases depth <;> rw [item, if_pos rfl]

theorem item_closing (distinct : marks.closing ≠ marks.opening) (depth : Nat) (rest : List α) :
    item marks (depth + 1) (marks.closing :: rest) = marks.closing :: item marks depth rest := by
  rw [item, if_neg distinct, if_pos rfl]

theorem item_other {c : α} (opens : c ≠ marks.opening) (closes : c ≠ marks.closing) {depth : Nat}
    (separates : ¬ (c = marks.separator ∧ depth = 0)) (rest : List α) :
    item marks depth (c :: rest) = c :: item marks depth rest := by
  cases depth with
  | zero => rw [item, if_neg opens, if_neg closes, if_neg separates]
  | succ depth => rw [item, if_neg opens, if_neg closes, if_neg separates]

theorem Shifts.nil : Shifts marks [] before before := fun _ _ => rfl

theorem Shifts.append (first : Shifts marks text before middle)
    (second : Shifts marks text' middle after) : Shifts marks (text ++ text') before after := by
  intro depth rest
  rw [List.append_assoc, first, second, List.append_assoc]

theorem Shifts.deeper (shifts : Shifts marks text before after) (more : Nat) :
    Shifts marks text (before + more) (after + more) := by
  intro depth rest
  have shifted := shifts (depth + more) rest
  rwa [Nat.add_right_comm, Nat.add_right_comm depth more after, Nat.add_assoc,
    Nat.add_assoc] at shifted

theorem shifts_opening : Shifts marks [marks.opening] before (before + 1) := by
  intro depth rest
  exact item_opening _ _

theorem shifts_closing (distinct : marks.closing ≠ marks.opening) :
    Shifts marks [marks.closing] (before + 1) before := by
  intro depth rest
  exact item_closing distinct _ _

theorem shifts_separator (distinct : marks.separator ≠ marks.opening)
    (distinct' : marks.separator ≠ marks.closing) :
    Shifts marks [marks.separator] (before + 1) (before + 1) := by
  intro depth rest
  exact item_other distinct distinct' (by simp) _

/-- Text without marks. -/
theorem shifts_plain
    (plain : ∀ c ∈ text, c ≠ marks.opening ∧ c ≠ marks.closing ∧ c ≠ marks.separator) :
    Shifts marks text before before := by
  intro depth rest
  induction text with
  | nil => rfl
  | cons c text ih =>
    obtain ⟨own, others⟩ := List.forall_mem_cons.mp plain
    rw [List.cons_append, item_other own.1 own.2.1 fun both => own.2.2 both.1, ih others]
    rfl

/-- An item is determined by what it starts. -/
theorem Shifts.inj {c c' : α} {rest rest' : List α} (whole : Shifts marks text 0 0)
    (whole' : Shifts marks text' 0 0) (distinct : marks.closing ≠ marks.opening)
    (distinct' : marks.separator ≠ marks.opening) (distinct'' : marks.separator ≠ marks.closing)
    (stop : c = marks.closing ∨ c = marks.separator)
    (stop' : c' = marks.closing ∨ c' = marks.separator)
    (same : text ++ c :: rest = text' ++ c' :: rest') :
    text = text' ∧ c :: rest = c' :: rest' := by
  have ends : ∀ d tail, d = marks.closing ∨ d = marks.separator →
      item marks 0 (d :: tail) = [] := by
    rintro d tail (rfl | rfl)
    · rw [item, if_neg distinct, if_pos rfl]
    · rw [item, if_neg distinct', if_neg distinct'', if_pos ⟨rfl, rfl⟩]
  have items := congrArg (item marks 0) same
  have read := whole 0 (c :: rest)
  have read' := whole' 0 (c' :: rest')
  rw [Nat.zero_add, ends c rest stop, List.append_nil] at read
  rw [Nat.zero_add, ends c' rest' stop', List.append_nil] at read'
  rw [read, read'] at items
  subst items
  exact ⟨rfl, List.append_cancel_left same⟩

end Item

end Delimited
