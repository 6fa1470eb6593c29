import Stg.Lib.Entries
import Mathlib.Logic.Embedding.Basic

set_option autoImplicit false

/- Finite maps with other keys and other values in the same places. -/
namespace Relabel

open Emplace (emplace)

variable {κ κ' β β' : Type}

theorem nodupKeys_map (f : κ ↪ κ') (g : β → β') {entries : List (Sigma fun _ : κ => β)}
    (nodup : entries.NodupKeys) :
    (entries.map fun entry => (⟨f entry.1, g entry.2⟩ : Sigma fun _ : κ' => β')).NodupKeys := by
  unfold List.NodupKeys List.keys at nodup ⊢
  rw [List.map_map]
  have same : (Sigma.fst ∘ fun entry : Sigma fun _ : κ => β =>
      (⟨f entry.1, g entry.2⟩ : Sigma fun _ : κ' => β')) = f ∘ Sigma.fst := rfl
  rw [same, ← List.map_map]
  exact nodup.map f.injective

/-- Keys that were different stay so, because the relabelling of keys is injective. -/
def relabel (f : κ ↪ κ') (g : β → β') (entries : AList fun _ : κ => β) : AList fun _ : κ' => β' where
  entries := entries.entries.map fun entry => ⟨f entry.1, g entry.2⟩
  nodupKeys := nodupKeys_map f g entries.nodupKeys

variable (f : κ ↪ κ') (g : β → β') (entries : AList fun _ : κ => β)

@[simp] theorem relabel_empty : relabel f g (∅ : AList fun _ : κ => β) = ∅ := rfl

@[simp] theorem length_relabel : (relabel f g entries).entries.length = entries.entries.length :=
  List.length_map _

@[simp] theorem isEmpty_keys_relabel :
    (relabel f g entries).keys.isEmpty = entries.keys.isEmpty := by
  simp only [AList.keys, List.keys, List.isEmpty_map, relabel]

/-- Relabelling by nothing but equal values changes nothing. -/
theorem relabel_id {g : β → β} (same : ∀ value, g value = value) :
    relabel (Function.Embedding.refl κ) g entries = entries := by
  apply AList.ext
  unfold relabel
  dsimp only
  conv_rhs => rw [← List.map_id entries.entries]
  apply List.map_congr_left
  rintro ⟨key, value⟩ _
  simp [same]

variable [DecidableEq κ] [DecidableEq κ']

/-- What is found under the new key is the new form of what was found. -/
@[simp] theorem lookup_relabel (key : κ) :
    (relabel f g entries).lookup (f key) = (entries.lookup key).map g := by
  obtain ⟨entries, nodup⟩ := entries
  unfold AList.lookup relabel
  dsimp only
  clear nodup
  induction entries with
  | nil => rfl
  | cons entry entries ih =>
    obtain ⟨other, value⟩ := entry
    rw [List.map_cons]
    by_cases same : key = other
    · subst same
      rw [List.dlookup_cons_eq, List.dlookup_cons_eq, Option.map_some]
    · have different : f key ≠ f other := f.injective.ne same
      rw [List.dlookup_cons_ne entries ⟨other, value⟩ same, ← ih]
      exact List.dlookup_cons_ne (β := fun _ => β') _ ⟨f other, g value⟩ different

@[simp] theorem mem_relabel (key : κ) : f key ∈ relabel f g entries ↔ key ∈ entries := by
  rw [← AList.lookup_isSome, ← AList.lookup_isSome, lookup_relabel, Option.isSome_map]

/-- The same entry goes, wherever it stands. -/
theorem kerase_map (key : κ) (items : List (Sigma fun _ : κ => β)) :
    List.kerase (f key) (items.map fun entry => (⟨f entry.1, g entry.2⟩ : Sigma fun _ : κ' => β')) =
      (List.kerase key items).map fun entry => ⟨f entry.1, g entry.2⟩ := by
  unfold List.kerase
  rw [List.eraseP_map]
  congr 2
  funext entry
  simp [f.injective.eq_iff]

@[simp] theorem relabel_insert (key : κ) (value : β) :
    relabel f g (entries.insert key value) = (relabel f g entries).insert (f key) (g value) := by
  apply AList.ext
  have erased := kerase_map f g key entries.entries
  change _ = (⟨f key, g value⟩ : Sigma fun _ : κ' => β') :: List.kerase (f key)
    (entries.entries.map _)
  rw [erased]
  rfl

@[simp] theorem relabel_erase (key : κ) :
    relabel f g (entries.erase key) = (relabel f g entries).erase (f key) := by
  apply AList.ext
  exact (kerase_map f g key entries.entries).symm

/-- `emplace` looks before it inserts, and finds a key in both maps or in neither. -/
@[simp] theorem relabel_emplace (key : κ) (value : β) :
    relabel f g (emplace entries key value) = emplace (relabel f g entries) (f key) (g value) := by
  unfold emplace
  rw [apply_ite (relabel f g), relabel_insert]
  simp only [mem_relabel]

theorem relabel_foldl_erase (keys : List κ) :
    relabel f g (keys.foldl (fun entries key => entries.erase key) entries) =
      (keys.map f).foldl (fun entries key => entries.erase key) (relabel f g entries) := by
  induction keys generalizing entries with
  | nil => rfl
  | cons key keys ih => rw [List.map_cons, List.foldl_cons, List.foldl_cons, ih, relabel_erase]

end Relabel
