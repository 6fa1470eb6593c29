import Mathlib.Logic.Relation
import Mathlib.Order.WellFoundedSet

set_option autoImplicit false

/- Walks that do not remember where they have been: on a finite relation they end if
and only if it has no cycle. -/
namespace Cycle

open Relation (TransGen ReflTransGen)

variable {α κ σ β ε : Type} {step : α → α → Prop}

/-- A relation that few elements have successors in has no infinite walk without a cycle. -/
theorem acc_of_acyclic (finite : {a | ∃ b, step a b}.Finite)
    (acyclic : ∀ a, ¬ TransGen step a a) (a : α) : Acc (fun b a => step a b) a := by
  have irreflexive : Std.Irrefl (fun b a => TransGen step a b) := ⟨acyclic⟩
  have transitive : IsTrans α (fun b a => TransGen step a b) :=
    ⟨fun _ _ _ first second => TransGen.trans second first⟩
  have order : IsStrictOrder α (fun b a => TransGen step a b) := { }
  have founded := @Set.Finite.wellFoundedOn α _ order {a | ∃ b, step a b} finite
  have inner : ∀ a ∈ {a | ∃ b, step a b}, Acc (fun b a => step a b) a := by
    intro a among
    apply founded.induction among
    intro a among ih
    apply Acc.intro
    intro b next
    by_cases more : ∃ c, step b c
    · exact ih b more (.single next)
    · exact Acc.intro b fun c later => absurd ⟨c, later⟩ more
  by_cases among : ∃ b, step a b
  · exact inner a among
  · exact Acc.intro a fun b next => absurd ⟨b, next⟩ among

theorem acyclic_of_acc {a : α} (acc : Acc (fun b a => step a b) a) : ¬ TransGen step a a := by
  induction acc with
  | intro a _ ih =>
    intro cycle
    obtain ⟨b, next, back⟩ := TransGen.head'_iff.mp cycle
    exact ih b next (TransGen.tail'_iff.mpr ⟨a, back, next⟩)

/-- On a cycle every step leads to an element with a step. -/
theorem cycle_goes_on {a b : α} (walk : TransGen step a b) (more : ∃ c, step b c) :
    TransGen (fun a b => step a b ∧ ∃ c, step b c) a b := by
  induction walk using TransGen.head_induction_on with
  | single next => exact .single ⟨next, more⟩
  | head next rest ih =>
    obtain ⟨c, after, _⟩ := TransGen.head'_iff.mp rest
    exact .head ⟨next, c, after⟩ ih

/-- A function with fuel that follows the steps from an element, and carries something
along. -/
structure Walks (step : α → α → Prop) (walk : Nat → α → σ → Except ε β) (spent : ε) : Prop where
  zero : ∀ a carried, walk 0 a carried = .error spent
  last : ∀ fuel a carried, (∀ b, ¬ step a b) → walk (fuel + 1) a carried ≠ .error spent
  next : ∀ fuel a b carried, step a b → ∃ carried', walk (fuel + 1) a carried = walk fuel b carried'

variable {walk : Nat → α → σ → Except ε β} {spent : ε}

theorem Walks.ends (walks : Walks step walk spent) {a : α} (acc : Acc (fun b a => step a b) a) :
    ∃ enough, ∀ fuel, enough ≤ fuel → ∀ carried, walk fuel a carried ≠ .error spent := by
  induction acc with
  | intro a _ ih =>
    by_cases more : ∃ b, step a b
    · obtain ⟨b, next⟩ := more
      obtain ⟨enough, ends⟩ := ih b next
      refine ⟨enough + 1, fun fuel many carried => ?_⟩
      obtain ⟨fuel, rfl⟩ := Nat.exists_eq_add_of_le' (Nat.le_of_add_left_le many)
      obtain ⟨carried', same⟩ := walks.next fuel a b carried next
      rw [same]
      exact ends fuel (by omega) carried'
    · refine ⟨1, fun fuel many carried => ?_⟩
      obtain ⟨fuel, rfl⟩ := Nat.exists_eq_add_of_le' many
      exact walks.last fuel a carried fun b next => more ⟨b, next⟩

theorem Walks.endless (walks : Walks step walk spent) {a : α} (cycle : TransGen step a a)
    (fuel : Nat) (carried : σ) : walk fuel a carried = .error spent := by
  induction fuel generalizing a carried with
  | zero => exact walks.zero a carried
  | succ fuel ih =>
    obtain ⟨b, next, back⟩ := TransGen.head'_iff.mp cycle
    obtain ⟨carried', same⟩ := walks.next fuel a b carried next
    rw [same]
    exact ih (TransGen.tail' back next) carried'

/-- Elements stand for keys so that the steps of the ones are those of the others. -/
structure Mirrors (stepOf : κ → κ → Prop) (step : α → α → Prop) (stands : κ → α → Prop) : Prop where
  forward : ∀ i a b, stands i a → step a b → ∃ j, stepOf i j ∧ stands j b
  backward : ∀ i j a, stands i a → stepOf i j → ∃ b, step a b ∧ stands j b
  key : ∀ i j a b, step a b → stands i a → stands j a → i = j
  element : ∀ i k a b, stepOf i k → stands i a → stands i b → a = b

variable {stepOf : κ → κ → Prop} {stands : κ → α → Prop}

theorem Mirrors.forward_path (mirrors : Mirrors stepOf step stands) {i : κ} {a b : α}
    (start : stands i a) (path : TransGen step a b) : ∃ j, TransGen stepOf i j ∧ stands j b := by
  induction path with
  | single next =>
    obtain ⟨j, nextOf, last⟩ := mirrors.forward i a _ start next
    exact ⟨j, .single nextOf, last⟩
  | tail _ next ih =>
    obtain ⟨j, pathOf, middle⟩ := ih
    obtain ⟨k, nextOf, last⟩ := mirrors.forward j _ _ middle next
    exact ⟨k, pathOf.tail nextOf, last⟩

theorem Mirrors.backward_path (mirrors : Mirrors stepOf step stands) {i j : κ} {a : α}
    (start : stands i a) (path : TransGen stepOf i j) : ∃ b, TransGen step a b ∧ stands j b := by
  induction path with
  | single nextOf =>
    obtain ⟨b, next, last⟩ := mirrors.backward i _ a start nextOf
    exact ⟨b, .single next, last⟩
  | tail _ nextOf ih =>
    obtain ⟨b, path, middle⟩ := ih
    obtain ⟨c, next, last⟩ := mirrors.backward _ _ b middle nextOf
    exact ⟨c, path.tail next, last⟩

theorem Mirrors.forward_reach (mirrors : Mirrors stepOf step stands) {i : κ} {a b : α}
    (start : stands i a) (reach : ReflTransGen step a b) :
    ∃ j, ReflTransGen stepOf i j ∧ stands j b := by
  rcases Relation.reflTransGen_iff_eq_or_transGen.mp reach with rfl | path
  · exact ⟨i, .refl, start⟩
  · obtain ⟨j, pathOf, last⟩ := mirrors.forward_path start path
    exact ⟨j, pathOf.to_reflTransGen, last⟩

theorem Mirrors.backward_reach (mirrors : Mirrors stepOf step stands) {i j : κ} {a : α}
    (start : stands i a) (reach : ReflTransGen stepOf i j) :
    ∃ b, ReflTransGen step a b ∧ stands j b := by
  rcases Relation.reflTransGen_iff_eq_or_transGen.mp reach with rfl | pathOf
  · exact ⟨a, .refl, start⟩
  · obtain ⟨b, path, last⟩ := mirrors.backward_path start pathOf
    exact ⟨b, path.to_reflTransGen, last⟩

theorem Mirrors.cycle_iff (mirrors : Mirrors stepOf step stands) {i : κ} {a : α}
    (start : stands i a) : TransGen step a a ↔ TransGen stepOf i i := by
  constructor
  · intro cycle
    obtain ⟨b, next, _⟩ := TransGen.head'_iff.mp cycle
    obtain ⟨j, pathOf, last⟩ := mirrors.forward_path start cycle
    cases mirrors.key i j a b next start last
    exact pathOf
  · intro cycleOf
    obtain ⟨k, nextOf, _⟩ := TransGen.head'_iff.mp cycleOf
    obtain ⟨b, path, last⟩ := mirrors.backward_path start cycleOf
    cases mirrors.element i k a b nextOf start last
    exact path

/-- There is a cycle inside a part if and only if there is one of keys, when what has a
step in the part stands for a key and every key with a step has an element there. -/
theorem Mirrors.acyclic_iff (mirrors : Mirrors stepOf step stands) {inside : α → Prop}
    (keyed : ∀ a b, inside a → step a b → ∃ i, stands i a)
    (placed : ∀ i j, stepOf i j → ∃ a, inside a ∧ stands i a) :
    (∀ a, inside a → ¬ TransGen step a a) ↔ ∀ i, ¬ TransGen stepOf i i := by
  constructor
  · intro acyclic i cycleOf
    obtain ⟨j, nextOf, _⟩ := TransGen.head'_iff.mp cycleOf
    obtain ⟨a, within, start⟩ := placed i j nextOf
    exact acyclic a within ((mirrors.cycle_iff start).mpr cycleOf)
  · intro acyclicOf a within cycle
    obtain ⟨b, next, _⟩ := TransGen.head'_iff.mp cycle
    obtain ⟨i, start⟩ := keyed a b within next
    exact acyclicOf i ((mirrors.cycle_iff start).mp cycle)

end Cycle
