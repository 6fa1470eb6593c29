import Mathlib.Data.List.Nodup
import Mathlib.Data.List.Pairwise
import Mathlib.Data.List.Perm.Basic

set_option autoImplicit false

/- The order in which a list without repeated elements holds them. -/
namespace Stg.Lib

section

variable {α : Type}

/-- `x` stands before `y` in the list. -/
def Precedes (l : List α) (x y : α) : Prop := [x, y].Sublist l

instance [DecidableEq α] (l : List α) (x y : α) : Decidable (Precedes l x y) :=
  inferInstanceAs (Decidable ([x, y].Sublist l))

variable {l part : List α} {x y : α}

theorem Precedes.left (precedes : Precedes l x y) : x ∈ l :=
  precedes.subset List.mem_cons_self

theorem Precedes.right (precedes : Precedes l x y) : y ∈ l :=
  precedes.subset (List.mem_cons_of_mem _ List.mem_cons_self)

theorem pairwise_precedes (l : List α) : l.Pairwise (Precedes l) := by
  rw [List.pairwise_iff_forall_sublist]
  intro x y precedes
  exact precedes

theorem Precedes.ne (nodup : l.Nodup) (precedes : Precedes l x y) : x ≠ y := by
  have pair : [x, y].Nodup := precedes.nodup nodup
  simpa using pair

/-- Two different elements stand in one of the two orders. -/
theorem precedes_or_precedes (left : x ∈ l) (right : y ∈ l) (apart : x ≠ y) :
    Precedes l x y ∨ Precedes l y x := by
  induction l with
  | nil => exact absurd left List.not_mem_nil
  | cons head rest ih =>
    rcases List.mem_cons.mp left with here | left
    · have later : y ∈ rest := (List.mem_cons.mp right).resolve_left fun same =>
        apart (here.trans same.symm)
      left
      rw [here]
      exact .cons_cons _ (List.singleton_sublist.mpr later)
    · rcases List.mem_cons.mp right with here | right
      · right
        rw [here]
        exact .cons_cons _ (List.singleton_sublist.mpr left)
      · exact (ih left right).imp (.cons _) (.cons _)

theorem Precedes.asymm (nodup : l.Nodup) (precedes : Precedes l x y) : ¬ Precedes l y x := by
  induction l with
  | nil => exact fun _ => absurd precedes.left List.not_mem_nil
  | cons head rest ih =>
    intro reverse
    have fresh := (List.nodup_cons.mp nodup).1
    have apart := precedes.ne nodup
    cases precedes with
    | cons _ later =>
      cases reverse with
      | cons _ later' => exact ih (List.nodup_cons.mp nodup).2 later later'
      | cons_cons _ _ => exact fresh (Precedes.right later)
    | cons_cons _ later =>
      cases reverse with
      | cons _ later' => exact fresh (Precedes.right later')
      | cons_cons _ _ => exact apart rfl

/-- A list without repeated elements is a subsequence of another one that has its elements
in the same order. -/
theorem sublist_of_precedes [DecidableEq α] (nodup : l.Nodup) (part_nodup : part.Nodup)
    (subset : part ⊆ l) (ordered : l.Pairwise fun x y => x ∈ part → y ∈ part → Precedes part x y) :
    part.Sublist l := by
  have filtered : (l.filter (· ∈ part)).Perm part := by
    rw [List.perm_ext_iff_of_nodup (nodup.filter _) part_nodup]
    intro x
    rw [List.mem_filter, decide_eq_true_eq]
    exact ⟨fun both => both.2, fun present => ⟨subset present, present⟩⟩
  have sorted : (l.filter (· ∈ part)).Pairwise (Precedes part) := by
    rw [List.pairwise_filter]
    refine ordered.imp ?_
    intro x y related amongX amongY
    exact related (of_decide_eq_true amongX) (of_decide_eq_true amongY)
  have same : l.filter (· ∈ part) = part := by
    refine filtered.eq_of_pairwise ?_ sorted (pairwise_precedes part)
    intro x y _ _ precedes reverse
    exact absurd reverse (precedes.asymm part_nodup)
  rw [← same]
  exact List.filter_sublist

end

end Stg.Lib
