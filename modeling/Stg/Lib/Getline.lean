import Mathlib.Data.List.Basic

set_option autoImplicit false

/- Texts as the items that `getline` takes from them. -/
namespace Getline

/-- The items that `getline` gets, after the characters (in reverse) of the current one. -/
def getlines (delimiter : Char) : List Char → List Char → List String
  | item, [] => if item = [] then [] else [String.ofList item.reverse]
  | item, c :: text =>
    if c = delimiter then String.ofList item.reverse :: getlines delimiter [] text
    else getlines delimiter (c :: item) text

variable {delimiter : Char} {item own text : List Char}

/-- An item goes up to the next delimiter. -/
theorem getlines_append (clean : delimiter ∉ own) :
    getlines delimiter item (own ++ delimiter :: text) =
      String.ofList (item.reverse ++ own) :: getlines delimiter [] text := by
  induction own generalizing item with
  | nil => simp [getlines]
  | cons c own ih =>
    have other : c ≠ delimiter := fun same => clean (same ▸ List.mem_cons_self)
    rw [List.cons_append, getlines, if_neg other, ih fun among =>
      clean (List.mem_cons_of_mem _ among)]
    simp

/-- What follows the last delimiter is an item if it is not empty. -/
theorem getlines_last (clean : delimiter ∉ own) :
    getlines delimiter item own =
      if item = [] ∧ own = [] then [] else [String.ofList (item.reverse ++ own)] := by
  induction own generalizing item with
  | nil => by_cases empty : item = [] <;> simp [getlines, empty]
  | cons c own ih =>
    have other : c ≠ delimiter := fun same => clean (same ▸ List.mem_cons_self)
    rw [getlines, if_neg other, ih fun among => clean (List.mem_cons_of_mem _ among)]
    simp

/-- Items with delimiters between them are got back. -/
theorem getlines_intercalate {items : List (List Char)}
    (clean : ∀ own ∈ items, delimiter ∉ own ∧ own ≠ []) :
    getlines delimiter [] (List.intercalate [delimiter] items) = items.map String.ofList := by
  induction items with
  | nil => rfl
  | cons own items ih =>
    obtain ⟨⟨first, filled⟩, rest⟩ := List.forall_mem_cons.mp clean
    cases items with
    | nil =>
      rw [List.intercalate_singleton, getlines_last first, if_neg fun empty => filled empty.2]
      rfl
    | cons next items =>
      rw [List.intercalate_cons_cons, List.append_assoc, List.singleton_append,
        getlines_append first, ih rest]
      rfl

end Getline
