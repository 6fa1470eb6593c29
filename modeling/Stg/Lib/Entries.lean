import Mathlib.Data.List.AList
import Mathlib.Data.List.Forall2
import Mathlib.Data.List.Nodup
import Mathlib.Data.List.Perm.Basic

set_option autoImplicit false

/- Lists whose elements are related pairwise, lists of keys and values, and finite maps into
which a value is put only if there is none. -/

section Pairwise

variable {α β : Type} {R : α → β → Prop} {xs : List α} {ys : List β}

theorem forall₂_mem_right (related : List.Forall₂ R xs ys) {y : β} (present : y ∈ ys) :
    ∃ x ∈ xs, R x y := by
  induction related with
  | nil => cases present
  | cons head _ ih =>
    rcases List.mem_cons.mp present with rfl | present
    · exact ⟨_, List.mem_cons_self, head⟩
    · obtain ⟨x, among, held⟩ := ih present
      exact ⟨x, List.mem_cons_of_mem _ among, held⟩

theorem forall₂_mem_left (related : List.Forall₂ R xs ys) {x : α} (present : x ∈ xs) :
    ∃ y ∈ ys, R x y :=
  forall₂_mem_right (R := fun y x => R x y) related.flip present

/-- Two lists that are related to the same one are related. -/
theorem forall₂_joined {γ : Type} {S : α → γ → Prop} {T : β → γ → Prop} {zs : List γ}
    (first : List.Forall₂ R xs ys) (second : List.Forall₂ S xs zs)
    (each : ∀ x y z, R x y → S x z → T y z) : List.Forall₂ T ys zs := by
  induction first generalizing zs with
  | nil =>
    cases second
    exact .nil
  | cons head _ ih =>
    cases second with
    | cons head' tail' => exact .cons (each _ _ _ head head') (ih tail')

end Pairwise

namespace Lookup

variable {κ β γ : Type} [DecidableEq κ] {entries entries' : List (κ × β)} {key : κ} {value : β}

theorem mem_of_lookup (found : entries.lookup key = some value) : (key, value) ∈ entries := by
  obtain ⟨before, after, rfl, _⟩ := List.lookup_eq_some_iff.mp found
  exact List.mem_append_right _ List.mem_cons_self

theorem lookup_of_mem (distinct : (entries.map (·.1)).Nodup) (present : (key, value) ∈ entries) :
    entries.lookup key = some value := by
  obtain ⟨before, after, rfl⟩ := List.append_of_mem present
  apply List.lookup_eq_some_iff.mpr
  refine ⟨before, after, rfl, fun entry among => ?_⟩
  rw [List.map_append, List.nodup_append] at distinct
  have apart := distinct.2.2 entry.1 (List.mem_map_of_mem among) key
    (List.mem_map_of_mem List.mem_cons_self)
  simpa [bne_iff_ne] using apart.symm

theorem lookup_eq_some (distinct : (entries.map (·.1)).Nodup) :
    entries.lookup key = some value ↔ (key, value) ∈ entries :=
  ⟨mem_of_lookup, lookup_of_mem distinct⟩

/-- Where the keys are distinct the order does not matter. -/
theorem lookup_perm (distinct : (entries.map (·.1)).Nodup) (perm : entries.Perm entries')
    (key : κ) :
    entries'.lookup key = entries.lookup key := by
  have distinct' : (entries'.map (·.1)).Nodup := (perm.map _).nodup_iff.mp distinct
  apply Option.ext
  intro value
  rw [lookup_eq_some distinct', lookup_eq_some distinct]
  exact perm.mem_iff.symm

end Lookup

namespace Emplace

variable {κ β : Type} [DecidableEq κ]

def emplace (entries : AList fun _ : κ => β) (key : κ) (value : β) : AList fun _ : κ => β :=
  if key ∈ entries then entries else entries.insert key value

theorem lookup_emplace (entries : AList fun _ : κ => β) (key : κ) (value : β) (k : κ) :
    (emplace entries key value).lookup k =
      if k = key then some ((entries.lookup key).getD value) else entries.lookup k := by
  unfold emplace
  by_cases same : k = key
  · subst same
    split
    · rename_i present
      obtain ⟨old, held⟩ := Option.isSome_iff_exists.mp (AList.lookup_isSome.mpr present)
      simp [held]
    · rename_i absent
      simp [AList.lookup_eq_none.mpr absent]
  · rw [if_neg same]
    split
    · rfl
    · exact AList.lookup_insert_ne same

theorem lookup_emplace_ne {entries : AList fun _ : κ => β} {key : κ} {value : β} {k : κ}
    (other : k ≠ key) : (emplace entries key value).lookup k = entries.lookup k := by
  rw [lookup_emplace, if_neg other]

theorem lookup_emplace_new {entries : AList fun _ : κ => β} {key : κ} {value : β}
    (absent : entries.lookup key = none) :
    (emplace entries key value).lookup key = some value := by
  rw [lookup_emplace, if_pos rfl, absent]
  rfl

end Emplace
