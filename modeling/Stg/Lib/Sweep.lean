import Mathlib.Order.Lattice
import Mathlib.Data.List.Basic
import Mathlib.Data.List.Forall2
import Mathlib.Tactic.Common

set_option autoImplicit false

/- Two pointers move over two sequences in step with their keys. Each element is
reported once: alone when its key has no partner, with its partner otherwise. -/
namespace Sweep

variable {κ α β : Type} [LinearOrder κ]

/-- The moves of the second pointer while the first one stands on `x`. -/
def row (key1 : α → κ) (key2 : β → κ) (x : α) (next : List β → List (Option α × Option β)) :
    List β → List (Option α × Option β)
  | [] => (some x, none) :: next []
  | y :: ys =>
    if key1 x < key2 y then (some x, none) :: next (y :: ys)
    else if key1 x > key2 y then (none, some y) :: row key1 key2 x next ys
    else (some x, some y) :: next ys

def sweep (key1 : α → κ) (key2 : β → κ) : List α → List β → List (Option α × Option β)
  | [], ys => ys.map fun y => (none, some y)
  | x :: xs, ys => row key1 key2 x (sweep key1 key2 xs) ys

variable {key1 : α → κ} {key2 : β → κ}

@[simp] theorem sweep_nil (ys : List β) :
    sweep key1 key2 [] ys = ys.map fun y => (none, some y) := rfl

@[simp] theorem sweep_cons_nil (x : α) (xs : List α) :
    sweep key1 key2 (x :: xs) [] = (some x, none) :: sweep key1 key2 xs [] := rfl

theorem sweep_less {x : α} {y : β} (less : key1 x < key2 y) (xs : List α) (ys : List β) :
    sweep key1 key2 (x :: xs) (y :: ys) = (some x, none) :: sweep key1 key2 xs (y :: ys) := by
  rw [sweep, row, if_pos less]

theorem sweep_greater {x : α} {y : β} (greater : key2 y < key1 x) (xs : List α) (ys : List β) :
    sweep key1 key2 (x :: xs) (y :: ys) = (none, some y) :: sweep key1 key2 (x :: xs) ys := by
  rw [sweep, row, if_neg (lt_asymm greater), if_pos greater]
  rfl

theorem sweep_equal {x : α} {y : β} (equal : key1 x = key2 y) (xs : List α) (ys : List β) :
    sweep key1 key2 (x :: xs) (y :: ys) = (some x, some y) :: sweep key1 key2 xs ys := by
  rw [sweep, row, if_neg (by simp [equal]), if_neg (by simp [equal])]

/-- Induction over the moves of the two pointers. -/
theorem sweep_induction (key1 : α → κ) (key2 : β → κ) {motive : List α → List β → Prop}
    (nil : ∀ ys, motive [] ys)
    (rest : ∀ x xs, motive xs [] → motive (x :: xs) [])
    (less : ∀ x xs y ys, key1 x < key2 y → motive xs (y :: ys) → motive (x :: xs) (y :: ys))
    (greater : ∀ x xs y ys, key2 y < key1 x → motive (x :: xs) ys → motive (x :: xs) (y :: ys))
    (equal : ∀ x xs y ys, key1 x = key2 y → motive xs ys → motive (x :: xs) (y :: ys))
    (xs : List α) (ys : List β) : motive xs ys := by
  induction xs generalizing ys with
  | nil => exact nil ys
  | cons x xs ihX =>
    induction ys with
    | nil => exact rest x xs (ihX [])
    | cons y ys ihY =>
      rcases lt_trichotomy (key1 x) (key2 y) with before | same | after
      · exact less x xs y ys before (ihX _)
      · exact equal x xs y ys same (ihX _)
      · exact greater x xs y ys after ihY

/-- The first sequence is reported completely and in order. -/
theorem sweep_left (key1 : α → κ) (key2 : β → κ) (xs : List α) (ys : List β) :
    (sweep key1 key2 xs ys).filterMap (·.1) = xs := by
  induction xs, ys using sweep_induction key1 key2 with
  | nil ys => simp
  | rest x xs ih => simpa using ih
  | less x xs y ys before ih => simpa [sweep_less before] using ih
  | greater x xs y ys after ih => simpa [sweep_greater after] using ih
  | equal x xs y ys same ih => simpa [sweep_equal same] using ih

/-- Swapping the sequences swaps the sides of every report. -/
theorem sweep_swap (key1 : α → κ) (key2 : β → κ) (xs : List α) (ys : List β) :
    sweep key2 key1 ys xs = (sweep key1 key2 xs ys).map Prod.swap := by
  induction xs, ys using sweep_induction key1 key2 with
  | nil ys =>
    induction ys with
    | nil => rfl
    | cons y ys ih => simpa using ih
  | rest x xs ih => simpa using ih
  | less x xs y ys before ih => simpa [sweep_less before, sweep_greater before] using ih
  | greater x xs y ys after ih => simpa [sweep_greater after, sweep_less after] using ih
  | equal x xs y ys same ih => simpa [sweep_equal same, sweep_equal same.symm] using ih

theorem sweep_right (key1 : α → κ) (key2 : β → κ) (xs : List α) (ys : List β) :
    (sweep key1 key2 xs ys).filterMap (·.2) = ys := by
  have left := sweep_left key2 key1 ys xs
  rwa [sweep_swap key1 key2, List.filterMap_map] at left

/-- Mapping the elements of both sequences maps the reports. -/
theorem sweep_map {α' β' : Type} (key1 : α → κ) (key2 : β → κ) {key1' : α' → κ} {key2' : β' → κ}
    (f : α → α') (g : β → β')
    (keeps1 : ∀ x, key1' (f x) = key1 x) (keeps2 : ∀ y, key2' (g y) = key2 y) (xs : List α)
    (ys : List β) :
    sweep key1' key2' (xs.map f) (ys.map g) =
      (sweep key1 key2 xs ys).map (Prod.map (Option.map f) (Option.map g)) := by
  induction xs, ys using sweep_induction key1 key2 with
  | nil ys => simp
  | rest x xs ih => simpa using ih
  | less x xs y ys before ih =>
    have before' : key1' (f x) < key2' (g y) := by rw [keeps1, keeps2]; exact before
    simpa [sweep_less before, sweep_less before'] using ih
  | greater x xs y ys after ih =>
    have after' : key2' (g y) < key1' (f x) := by rw [keeps1, keeps2]; exact after
    simpa [sweep_greater after, sweep_greater after'] using ih
  | equal x xs y ys same ih =>
    have same' : key1' (f x) = key2' (g y) := by rw [keeps1, keeps2]; exact same
    simpa [sweep_equal same, sweep_equal same'] using ih

/-- Related sequences with the same keys are swept alike. -/
theorem sweep_related {α' β' : Type} {key1' : α' → κ} {key2' : β' → κ} {R : α → α' → Prop}
    {S : β → β' → Prop} (keeps1 : ∀ x x', R x x' → key1' x' = key1 x)
    (keeps2 : ∀ y y', S y y' → key2' y' = key2 y) {xs : List α} {xs' : List α'} {ys : List β}
    {ys' : List β'} (left : List.Forall₂ R xs xs') (right : List.Forall₂ S ys ys') :
    List.Forall₂ (fun item item' => Option.Rel R item.1 item'.1 ∧ Option.Rel S item.2 item'.2)
      (sweep key1 key2 xs ys) (sweep key1' key2' xs' ys') := by
  induction xs, ys using sweep_induction key1 key2 generalizing xs' ys' with
  | nil ys =>
    cases left
    rw [sweep_nil, sweep_nil, List.forall₂_map_left_iff, List.forall₂_map_right_iff]
    exact right.imp fun _ _ held => ⟨.none, .some held⟩
  | rest x xs ih =>
    cases left with
    | cons first left =>
      cases right
      exact .cons ⟨.some first, .none⟩ (ih left .nil)
  | less x xs y ys before ih =>
    cases left with
    | @cons _ x' _ xs' first left =>
      cases right with
      | @cons _ y' _ ys' second right =>
        have before' : key1' x' < key2' y' := by rwa [keeps1 _ _ first, keeps2 _ _ second]
        rw [sweep_less before, sweep_less before']
        exact .cons ⟨.some first, .none⟩ (ih left (.cons second right))
  | greater x xs y ys after ih =>
    cases left with
    | @cons _ x' _ xs' first left =>
      cases right with
      | @cons _ y' _ ys' second right =>
        have after' : key2' y' < key1' x' := by rwa [keeps1 _ _ first, keeps2 _ _ second]
        rw [sweep_greater after, sweep_greater after']
        exact .cons ⟨.none, .some second⟩ (ih (.cons first left) right)
  | equal x xs y ys same ih =>
    cases left with
    | @cons _ x' _ xs' first left =>
      cases right with
      | @cons _ y' _ ys' second right =>
        have same' : key1' x' = key2' y' := by rwa [keeps1 _ _ first, keeps2 _ _ second]
        rw [sweep_equal same, sweep_equal same']
        exact .cons ⟨.some first, .some second⟩ (ih left right)

theorem sweep_sided (xs : List α) (ys : List β) :
    ∀ item ∈ sweep key1 key2 xs ys, item.1.isSome || item.2.isSome := by
  induction xs, ys using sweep_induction key1 key2 with
  | nil ys => simp
  | rest x xs ih => simpa using ih
  | less x xs y ys before ih => simpa [sweep_less before] using ih
  | greater x xs y ys after ih => simpa [sweep_greater after] using ih
  | equal x xs y ys same ih => simpa [sweep_equal same] using ih

theorem mem_left {xs : List α} {ys : List β} {x : α} {b : Option β}
    (present : (some x, b) ∈ sweep key1 key2 xs ys) : x ∈ xs := by
  have reported := sweep_left key1 key2 xs ys
  rw [← reported]
  exact List.mem_filterMap.mpr ⟨_, present, rfl⟩

theorem mem_right {xs : List α} {ys : List β} {a : Option α} {y : β}
    (present : (a, some y) ∈ sweep key1 key2 xs ys) : y ∈ ys := by
  have reported := sweep_right key1 key2 xs ys
  rw [← reported]
  exact List.mem_filterMap.mpr ⟨_, present, rfl⟩

section Ascending

/-- The sequences side by side, what is left of the longer one alone. -/
def align : List α → List β → List (Option α × Option β)
  | [], ys => ys.map fun y => (none, some y)
  | x :: xs, [] => (some x, none) :: align xs []
  | x :: xs, y :: ys => (some x, some y) :: align xs ys

theorem getElem?_align (xs : List α) (ys : List β) (n : Nat) :
    (align xs ys)[n]? = if n < max xs.length ys.length then some (xs[n]?, ys[n]?) else none := by
  induction xs, ys using align.induct generalizing n with
  | case1 ys =>
    simp only [align, List.getElem?_map, List.getElem?_nil, List.length_nil, Nat.zero_max]
    split
    · rename_i inside
      simp [inside]
    · rename_i outside
      simp [outside]
  | case2 x xs ih =>
    cases n with
    | zero => simp [align]
    | succ n => simpa [align] using ih n
  | case3 x xs y ys ih =>
    cases n with
    | zero => simp [align]
    | succ n => simpa [align, Nat.succ_max_succ] using ih n

/-- The report is about an element with this key. -/
def Reports (key1 : α → κ) (key2 : β → κ) (k : κ) (item : Option α × Option β) : Prop :=
  item.1.map key1 = some k ∨ item.2.map key2 = some k

instance (k : κ) (item : Option α × Option β) : Decidable (Reports key1 key2 k item) :=
  inferInstanceAs (Decidable (_ ∨ _))

omit [LinearOrder κ] in
@[simp] theorem reports_left {k : κ} {x : α} :
    Reports key1 key2 k (some x, none) ↔ key1 x = k := by simp [Reports]

omit [LinearOrder κ] in
@[simp] theorem reports_right {k : κ} {y : β} :
    Reports key1 key2 k (none, some y) ↔ key2 y = k := by simp [Reports]

omit [LinearOrder κ] in
@[simp] theorem reports_both {k : κ} {x : α} {y : β} :
    Reports key1 key2 k (some x, some y) ↔ key1 x = k ∨ key2 y = k := by simp [Reports]

theorem filter_eq_nil_of_lt {xs : List α} {k : κ} (above : ∀ x ∈ xs, k < key1 x) :
    xs.filter (key1 · = k) = [] := by
  rw [List.filter_eq_nil_iff]
  intro x present
  simpa using (above x present).ne'

theorem lt_of_lt_head {x : α} {xs : List α} {k : κ}
    (ascending : ((x :: xs).map key1).Pairwise (· ≤ ·)) (below : k < key1 x) :
    ∀ z ∈ x :: xs, k < key1 z := by
  intro z present
  rcases List.mem_cons.mp present with rfl | later
  · exact below
  · exact below.trans_le (List.rel_of_pairwise_cons ascending (List.mem_map_of_mem later))

/-- Of the elements with one key the first ones are reported together, then the second ones,
and so on; what is left of them is reported alone. -/
theorem sweep_at {xs : List α} {ys : List β} (ascending1 : (xs.map key1).Pairwise (· ≤ ·))
    (ascending2 : (ys.map key2).Pairwise (· ≤ ·)) (k : κ) :
    (sweep key1 key2 xs ys).filter (Reports key1 key2 k) =
      align (xs.filter (key1 · = k)) (ys.filter (key2 · = k)) := by
  induction xs, ys using sweep_induction key1 key2 with
  | nil ys => simp [align, List.filter_map, Function.comp_def]
  | rest x xs ih =>
    have rest := ih ascending1.of_cons ascending2
    by_cases here : key1 x = k
    · simpa [here, align] using rest
    · simpa [here] using rest
  | less x xs y ys before ih =>
    have rest := ih ascending1.of_cons ascending2
    by_cases here : key1 x = k
    · have above := lt_of_lt_head ascending2 (here ▸ before)
      have none_right := filter_eq_nil_of_lt above
      rw [none_right] at rest
      simp [sweep_less before, here, none_right, rest, align]
    · simp [sweep_less before, here, rest]
  | greater x xs y ys after ih =>
    have rest := ih ascending1 ascending2.of_cons
    by_cases here : key2 y = k
    · have above := lt_of_lt_head ascending1 (here ▸ after)
      have none_left := filter_eq_nil_of_lt above
      rw [none_left] at rest
      simp [sweep_greater after, here, none_left, rest, align]
    · simp [sweep_greater after, here, rest]
  | equal x xs y ys same ih =>
    have rest := ih ascending1.of_cons ascending2.of_cons
    by_cases here : key2 y = k
    · simp [sweep_equal same, same, here, rest, align]
    · simp [sweep_equal same, same, here, rest]

end Ascending

end Sweep
