import Mathlib.Data.Finset.Card
import Mathlib.Logic.Relation

set_option autoImplicit false

/- What can be reached in a directed graph. The safe nodes are those from which no bad node can
be reached: the greatest set of nodes that avoids the bad ones and is closed under edges. -/
namespace Reach

open Relation (ReflTransGen TransGen)

variable {ν μ : Type} {E : ν → ν → Prop} {bad : ν → Prop}

def Safe (E : ν → ν → Prop) (bad : ν → Prop) (p : ν) : Prop :=
  ∀ q, ReflTransGen E p q → ¬ bad q

theorem Safe.here {p : ν} (safe : Safe E bad p) : ¬ bad p := safe p .refl

theorem Safe.next {p q : ν} (safe : Safe E bad p) (edge : E p q) : Safe E bad q :=
  fun r path => safe r (.head edge path)

/-- Any closed set that avoids the bad nodes is safe. -/
theorem Safe.coinduct {R : ν → Prop} (avoids : ∀ p, R p → ¬ bad p)
    (closed : ∀ p q, R p → E p q → R q) {p : ν} (start : R p) : Safe E bad p := by
  intro q path
  refine avoids q ?_
  induction path with
  | refl => exact start
  | tail _ edge ih => exact closed _ _ ih edge

theorem Safe.simulate {E' : μ → μ → Prop} {bad' : μ → Prop} {R : ν → μ → Prop}
    (avoids : ∀ p q, R p q → bad' q → bad p)
    (steps : ∀ p q q', R p q → E' q q' → ∃ p', E p p' ∧ R p' q') {p : ν} {q : μ}
    (related : R p q) (safe : Safe E bad p) : Safe E' bad' q := by
  refine Safe.coinduct (R := fun q => ∃ p, R p q ∧ Safe E bad p) ?_ ?_ ⟨p, related, safe⟩
  · rintro q ⟨p, related, safe⟩ isBad
    exact safe.here (avoids p q related isBad)
  · rintro q q' ⟨p, related, safe⟩ edge
    obtain ⟨p', edge, related⟩ := steps p q q' related edge
    exact ⟨p', related, safe.next edge⟩

/-- Where there are no cycles and all edges lead into a finite set there is a rank that falls
along every edge. -/
theorem exists_rank {ν : Type} {E : ν → ν → Prop} (nodes : Finset ν)
    (targets : ∀ p q, E p q → q ∈ nodes) (acyclic : ∀ p, ¬ TransGen E p p) :
    ∃ rank : ν → Nat, (∀ p q, E p q → rank q < rank p) ∧ ∀ p, rank p ≤ nodes.card := by
  classical
  refine ⟨fun p => (nodes.filter (TransGen E p)).card, fun p q edge => ?_, fun p => ?_⟩
  · apply Finset.card_lt_card
    have inside : nodes.filter (TransGen E q) ⊆ nodes.filter (TransGen E p) := by
      intro r among
      rw [Finset.mem_filter] at among ⊢
      exact ⟨among.1, .head edge among.2⟩
    rw [Finset.ssubset_iff_of_subset inside]
    refine ⟨q, Finset.mem_filter.mpr ⟨targets p q edge, .single edge⟩, fun among => ?_⟩
    exact acyclic q (Finset.mem_filter.mp among).2
  · exact Finset.card_filter_le _ _

end Reach
