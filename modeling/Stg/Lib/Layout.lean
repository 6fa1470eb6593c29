import Mathlib.Data.List.Basic

set_option autoImplicit false

/- Items that lie at an offset of a longer sequence. -/
namespace Layout

variable {α : Type}

/-- The items lie at the offset. -/
def At (data : List α) (offset : Nat) (items : List α) : Prop := items <+: data.drop offset

variable {data items items' : List α} {offset size : Nat}

theorem at_append (before items after : List α) :
    At (before ++ items ++ after) before.length items := by
  unfold At
  rw [List.append_assoc, List.drop_left]
  exact List.prefix_append items after

theorem At.left (at_ : At data offset (items ++ items')) : At data offset items :=
  (List.prefix_append items items').trans at_

theorem At.right (at_ : At data offset (items ++ items')) :
    At data (offset + items.length) items' := by
  obtain ⟨after, same⟩ := at_
  refine ⟨after, ?_⟩
  rw [← List.drop_drop, ← same, List.append_assoc, List.drop_left]

theorem At.right_of_length (at_ : At data offset (items ++ items')) (length : items.length = size) :
    At data (offset + size) items' :=
  length ▸ at_.right

/-- As many items are read back. -/
theorem At.take (at_ : At data offset items) (length : items.length = size) :
    (data.drop offset).take size = items := by
  obtain ⟨after, same⟩ := at_
  rw [← same, ← length, List.take_left]

theorem At.getElem? (at_ : At data offset items) {index : Nat} (inside : index < items.length) :
    data[offset + index]? = items[index]? := by
  obtain ⟨after, same⟩ := at_
  rw [← List.getElem?_drop, ← same, List.getElem?_append_left inside]

theorem At.length_le (at_ : At data offset items) (some_ : items ≠ []) :
    offset + items.length ≤ data.length := by
  have short := List.IsPrefix.length_le at_
  have pos := List.length_pos_of_ne_nil some_
  rw [List.length_drop] at short
  omega

/-- Up to an item that stops the reader, the others are read back. -/
theorem At.takeWhile {p : α → Bool} {stop : α} (at_ : At data offset (items ++ [stop]))
    (each : ∀ item ∈ items, p item = true) (stops : p stop = false) :
    (data.drop offset).takeWhile p = items := by
  obtain ⟨after, same⟩ := at_
  rw [← same, List.append_assoc, List.takeWhile_append_of_pos each, List.singleton_append,
    List.takeWhile_cons_of_neg (by simp [stops]), List.append_nil]

end Layout
