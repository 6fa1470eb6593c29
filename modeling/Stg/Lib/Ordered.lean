import Mathlib.Data.List.Sort
import Mathlib.Order.Lattice

set_option autoImplicit false

/- Ordered maps as their entries in increasing order of keys. -/
namespace Ordered

variable {κ β : Type} [LinearOrder κ]

/-- Insertion that keeps an entry which is already there. -/
def insert (entries : List (κ × β)) (key : κ) (value : β) : List (κ × β) :=
  if key ∈ entries.map (·.1) then entries
  else entries.orderedInsert (fun a b => a.1 ≤ b.1) (key, value)

variable {entries : List (κ × β)} {key : κ} {value : β}

theorem insert_present (present : key ∈ entries.map (·.1)) : insert entries key value = entries :=
  if_pos present

theorem insert_map {β' : Type} (f : β → β') (entries : List (κ × β)) (key : κ) (value : β) :
    insert (entries.map fun entry => (entry.1, f entry.2)) key (f value) =
      (insert entries key value).map fun entry => (entry.1, f entry.2) := by
  have keys : (entries.map fun entry => (entry.1, f entry.2)).map (·.1) = entries.map (·.1) := by
    rw [List.map_map]
    rfl
  unfold insert
  rw [keys]
  split
  · rfl
  · symm
    exact List.map_orderedInsert _ _ _ _ _ (fun _ _ => Iff.rfl) fun _ _ => Iff.rfl

theorem insert_perm (absent : key ∉ entries.map (·.1)) :
    (insert entries key value).Perm ((key, value) :: entries) := by
  rw [insert, if_neg absent]
  exact List.perm_orderedInsert _ _ _

theorem ascending_insert (ascending : (entries.map (·.1)).Pairwise (· < ·)) :
    ((insert entries key value).map (·.1)).Pairwise (· < ·) := by
  by_cases present : key ∈ entries.map (·.1)
  · rwa [insert_present present]
  rw [insert, if_neg present]
  induction entries with
  | nil => exact List.pairwise_singleton _ _
  | cons entry entries ih =>
    have first : ∀ k ∈ entries.map (·.1), entry.1 < k := (List.pairwise_cons.mp ascending).1
    have rest := (List.pairwise_cons.mp ascending).2
    rw [List.map_cons, List.mem_cons, not_or] at present
    rw [List.orderedInsert_cons]
    split
    · rename_i before
      apply List.pairwise_cons.mpr
      constructor
      · intro k among
        rcases List.mem_cons.mp among with rfl | later
        · exact lt_of_le_of_ne before present.1
        · exact lt_of_le_of_lt before (first k later)
      · exact ascending
    · rename_i after
      apply List.pairwise_cons.mpr
      constructor
      · intro k among
        have perm := (List.perm_orderedInsert (fun a b : κ × β => a.1 ≤ b.1) (key, value)
          entries).map (·.1)
        rcases List.mem_cons.mp (perm.mem_iff.mp among) with rfl | later
        · exact lt_of_not_ge after
        · exact first k later
      · exact ih rest present.2

theorem mem_keys_insert {key' : κ} :
    key' ∈ (insert entries key value).map (·.1) ↔ key' = key ∨ key' ∈ entries.map (·.1) := by
  by_cases present : key ∈ entries.map (·.1)
  · rw [insert_present present]
    constructor
    · exact .inr
    · rintro (rfl | among)
      · exact present
      · exact among
  · rw [((insert_perm present).map (·.1)).mem_iff, List.map_cons, List.mem_cons]

theorem orderedInsert_comm {first second : κ × β} (different : first.1 ≠ second.1) :
    (entries.orderedInsert (fun a b => a.1 ≤ b.1) first).orderedInsert
      (fun a b => a.1 ≤ b.1) second =
      (entries.orderedInsert (fun a b => a.1 ≤ b.1) second).orderedInsert (fun a b => a.1 ≤ b.1)
        first := by
  induction entries with
  | nil =>
    simp only [List.orderedInsert_nil, List.orderedInsert_cons]
    rcases lt_or_gt_of_ne different with less | greater
    · rw [if_neg (not_le.mpr less), if_pos less.le]
    · rw [if_pos greater.le, if_neg (not_le.mpr greater)]
  | cons entry entries ih =>
    grind

/-- Insertions of different keys can change places. -/
theorem insert_comm {key' : κ} {value' : β} (different : key ≠ key') :
    insert (insert entries key value) key' value' = insert (insert entries key' value')
      key value := by
  by_cases present : key ∈ entries.map (·.1)
  · rw [insert_present present, insert_present (mem_keys_insert.mpr (.inr present))]
  by_cases present' : key' ∈ entries.map (·.1)
  · rw [insert_present present', insert_present (mem_keys_insert.mpr (.inr present'))]
  have absent : key ∉ (insert entries key' value').map (·.1) :=
    fun among => (mem_keys_insert.mp among).elim different present
  have absent' : key' ∉ (insert entries key value).map (·.1) :=
    fun among => (mem_keys_insert.mp among).elim different.symm present'
  rw [insert, if_neg absent', insert, if_neg present, insert, if_neg absent, insert,
    if_neg present']
  exact orderedInsert_comm different

theorem map_insert {γ : Type} (f : β → γ) :
    (insert entries key value).map (fun entry => (entry.1, f entry.2)) =
      insert (entries.map fun entry => (entry.1, f entry.2)) key (f value) := by
  have keys : (entries.map fun entry => (entry.1, f entry.2)).map (·.1) = entries.map (·.1) := by
    rw [List.map_map]
    rfl
  unfold insert
  rw [keys]
  split
  · rfl
  · exact List.map_orderedInsert _ _ _ _ _ (fun _ _ => Iff.rfl) (fun _ _ => Iff.rfl)

/-- The entries of maps with the same keys, where those of each key are related. -/
theorem related_of_keys {α : Type} {R : α → β → Prop} {xs : List (κ × α)} {ys : List (κ × β)}
    (ascending : (xs.map (·.1)).Pairwise (· < ·)) (ascending' : (ys.map (·.1)).Pairwise (· < ·))
    (forth : ∀ key x, (key, x) ∈ xs → ∃ y, (key, y) ∈ ys ∧ R x y)
    (back : ∀ key y, (key, y) ∈ ys → ∃ x, (key, x) ∈ xs) :
    List.Forall₂ (fun x y => y.1 = x.1 ∧ R x.2 y.2) xs ys := by
  have keys : xs.map (·.1) = ys.map (·.1) := by
    apply ascending.eq_of_mem_iff ascending'
    intro key
    simp only [List.mem_map, Prod.exists, exists_and_right, exists_eq_right]
    constructor
    · rintro ⟨x, entry⟩
      obtain ⟨y, entry', _⟩ := forth key x entry
      exact ⟨y, entry'⟩
    · rintro ⟨y, entry'⟩
      exact back key y entry'
  have same : List.Forall₂ (fun x y => x.1 = y.1) xs ys :=
    List.forall₂_map_left_iff.mp (List.forall₂_map_right_iff.mp (List.forall₂_eq_eq_eq ▸ keys))
  rw [List.forall₂_iff_zip] at same ⊢
  refine ⟨same.1, fun {x y} among => ⟨(same.2 among).symm, ?_⟩⟩
  obtain ⟨entry, entry'⟩ := List.of_mem_zip among
  obtain ⟨y', entry'', held⟩ := forth x.1 x.2 entry
  have one := List.inj_on_of_nodup_map ascending'.nodup entry'' entry' (same.2 among)
  rwa [← one]

end Ordered
