import Stg.Plan

set_option autoImplicit false

/- What the pairing of nodes and of enumerators by key computes, up to order. -/
namespace Stg

/-- A key with the element it stands for. -/
def entry {α : Type} (elements : List α) (absent : α) (key : String × Nat) : String × α :=
  (key.1, elements.getD key.2 absent)

/-- All the indexes of a list of keys lie inside a list of `size` elements. -/
def KeyIndexPairs.Inside (keys : KeyIndexPairs) (size : Nat) : Prop :=
  ∀ key ∈ keys, key.2 < size

theorem sortPairs_perm (keys : KeyIndexPairs) : (sortPairs keys).Perm keys :=
  List.perm_insertionSort _ _

theorem indexKeys_inside {key : Id → Except Error String} {ix anonymousIx : Nat} {nodes : List Id}
    {keys : KeyIndexPairs} (found : indexKeys key ix anonymousIx nodes = .ok keys) :
    keys.map (·.2) = List.range' ix nodes.length := by
  induction nodes generalizing ix anonymousIx keys with
  | nil => cases found; rfl
  | cons node nodes ih =>
    obtain ⟨own, keyed, found⟩ := bind_eq_ok found
    split at found
    all_goals
      obtain ⟨rest, foundRest, found⟩ := bind_eq_ok found
      cases found
      rw [List.map_cons, ih foundRest]
      rfl

theorem matchingKeys_perm {graph : Graph} {fuel : Nat} {nodes : List Id} {keys : KeyIndexPairs}
    (found : matchingKeys graph fuel nodes = .ok keys) :
    (keys.map (·.2)).Perm (List.range nodes.length) := by
  obtain ⟨indexed, foundIndexed, found⟩ := bind_eq_ok found
  cases found
  rw [List.range_eq_range', ← indexKeys_inside foundIndexed]
  exact (sortPairs_perm indexed).map _

theorem matchingKeys_inside {graph : Graph} {fuel : Nat} {nodes : List Id} {keys : KeyIndexPairs}
    (found : matchingKeys graph fuel nodes = .ok keys) : keys.Inside nodes.length := by
  intro key present
  have among := (matchingKeys_perm found).mem_iff.mp (List.mem_map_of_mem present)
  exact List.mem_range.mp among

theorem pairUp_sided (keys1 keys2 : KeyIndexPairs) :
    ∀ pair ∈ pairUp keys1 keys2, pair.1.isSome || pair.2.isSome := by
  intro pair present
  obtain ⟨item, among, rfl⟩ := List.mem_map.mp present
  simpa using Sweep.sweep_sided keys1 keys2 item among

theorem arrange_perm {pairs : MatchedPairs} (sided : ∀ pair ∈ pairs, pair.1.isSome || pair.2.isSome)
    (reordered : Bool) : ∃ pairs', arrange reordered pairs = .ok pairs' ∧ pairs'.Perm pairs := by
  cases reordered with
  | false => exact ⟨pairs, rfl, .refl _⟩
  | true => exact reorder_spec pairs sided

theorem mapM_eq_ok {α β : Type} {f : α → Except Error β} {g : α → β} {items : List α}
    (each : ∀ item ∈ items, f item = .ok (g item)) : items.mapM f = .ok (items.map g) := by
  induction items with
  | nil => rfl
  | cons item items ih =>
    rw [List.mapM_cons, each item (by simp), ih fun item present => each item (by simp [present])]
    rfl

/-- Items that are looked up by the indexes of a pairing, in some order. -/
theorem mapM_pairUp {α β : Type} {keys1 keys2 : KeyIndexPairs} {elements1 elements2 : List α}
    (absent : α) (inside1 : keys1.Inside elements1.length) (inside2 : keys2.Inside elements2.length)
    {f : Option Nat × Option Nat → Except Error β}
    {g : Option (String × α) × Option (String × α) → β}
    (each : ∀ item ∈ Sweep.sweep (·.1) (·.1) keys1 keys2,
      (∀ key ∈ item.1, key.2 < elements1.length) →
      (∀ key ∈ item.2, key.2 < elements2.length) →
      f (item.1.map (·.2), item.2.map (·.2)) =
        .ok (g (item.1.map (entry elements1 absent), item.2.map (entry elements2 absent))))
    (reordered : Bool) :
    ∃ pairs out, arrange reordered (pairUp keys1 keys2) = .ok pairs ∧ pairs.mapM f = .ok out ∧
      out.Perm ((Sweep.sweep (·.1) (·.1) (keys1.map (entry elements1 absent))
        (keys2.map (entry elements2 absent))).map g) := by
  obtain ⟨pairs, arranged, perm⟩ := arrange_perm (pairUp_sided keys1 keys2) reordered
  let made (pair : Option Nat × Option Nat) : β := (f pair).toOption.getD (g (none, none))
  have makes : ∀ item ∈ Sweep.sweep (·.1) (·.1) keys1 keys2,
      f (item.1.map (·.2), item.2.map (·.2)) =
        .ok (g (item.1.map (entry elements1 absent), item.2.map (entry elements2 absent))) := by
    rintro ⟨key1, key2⟩ among
    refine each _ among ?_ ?_
    · rintro key ⟨⟩
      exact inside1 key (Sweep.mem_left among)
    · rintro key ⟨⟩
      exact inside2 key (Sweep.mem_right among)
  refine ⟨pairs, pairs.map made, arranged, mapM_eq_ok fun pair present => ?_, ?_⟩
  · obtain ⟨item, among, rfl⟩ := List.mem_map.mp (perm.mem_iff.mp present)
    simp only [made, makes item among, Except.toOption, Option.getD_some]
  · refine (perm.map made).trans (List.Perm.of_eq ?_)
    rw [Sweep.sweep_map (·.1) (·.1) (entry elements1 absent)
      (entry elements2 absent) (fun _ => rfl) (fun _ => rfl), pairUp, List.map_map, List.map_map]
    refine List.map_congr_left fun item among => ?_
    simp only [made, Function.comp, makes item among]
    rfl

theorem getElem?_entry {α : Type} {elements : List α} (absent : α) {key : String × Nat}
    (inside : key.2 < elements.length) : elements[key.2]? = some (entry elements absent key).2 := by
  simp [entry, inside]

/-- The step for a swept pair of nodes with their keys. -/
def sweptStep : Option (String × Id) × Option (String × Id) → Step
  | (some removed, none) => .removed "" removed.2
  | (none, some added) => .added "" added.2
  | (some node1, some node2) => .compare "" node1.2 node2.2
  | (none, none) => .incomparable

/-- Nodes are compared along the sweep of their keyed lists, in some order. -/
theorem nodeSteps_perm {graph : Graph} {fuel : Nat} {nodes1 nodes2 : List Id}
    {keys1 keys2 : KeyIndexPairs} (found1 : matchingKeys graph fuel nodes1 = .ok keys1)
    (found2 : matchingKeys graph fuel nodes2 = .ok keys2) (reordered : Bool) :
    ∃ steps, nodeSteps graph fuel nodes1 nodes2 reordered = .ok steps ∧
      steps.Perm ((Sweep.sweep (·.1) (·.1) (keys1.map (entry nodes1 ⟨0⟩))
        (keys2.map (entry nodes2 ⟨0⟩))).map sweptStep) := by
  obtain ⟨pairs, steps, arranged, planned, perm⟩ := mapM_pairUp (⟨0⟩ : Id) (g := sweptStep)
    (matchingKeys_inside found1) (matchingKeys_inside found2) (f := nodeStep nodes1 nodes2)
    (fun item among inside1 inside2 => by
      rcases item with ⟨_ | key1, _ | key2⟩
      · simpa using Sweep.sweep_sided _ _ _ among
      · simp only [Option.map, nodeStep, getElem?_entry (⟨0⟩ : Id) (inside2 key2 rfl)]
        rfl
      · simp only [Option.map, nodeStep, getElem?_entry (⟨0⟩ : Id) (inside1 key1 rfl)]
        rfl
      · simp only [Option.map, nodeStep, Option.bind_some,
          getElem?_entry (⟨0⟩ : Id) (inside1 key1 rfl),
          getElem?_entry (⟨0⟩ : Id) (inside2 key2 rfl)]
        rfl) reordered
  refine ⟨steps, ?_, perm⟩
  simp only [nodeSteps, found1, found2, bind, Except.bind, arranged]
  exact planned

/-- The steps for a swept pair of enumerators with their names. -/
def sweptEnumerator :
    Option (String × (String × Int64)) × Option (String × (String × Int64)) → List Step
  | (some removed, none) => [.note (enumeratorText removed.2 "removed")]
  | (none, some added) => [.note (enumeratorText added.2 "added")]
  | (some enum1, some enum2) =>
    change ("enumerator " ++ quoted enum1.2.1 ++ " value") enum1.2.2 enum2.2.2
  | (none, none) => []

theorem getEnumNames_inside (definition : Enumeration.Definition) :
    definition.getEnumNames.Inside definition.enumerators.length := by
  intro key present
  have among := (sortPairs_perm _).mem_iff.mp present
  obtain ⟨item, indexed, rfl⟩ := List.mem_map.mp among
  exact (List.mem_zipIdx' indexed).1

/-- Enumerators are compared along the sweep of their sorted lists, in some order. -/
theorem enumeratorSteps_perm (definition1 definition2 : Enumeration.Definition) :
    ∃ pairs steps, reorder (pairUp definition1.getEnumNames definition2.getEnumNames) = .ok pairs ∧
      pairs.mapM (enumeratorSteps definition1.enumerators definition2.enumerators) = .ok steps ∧
      steps.Perm ((Sweep.sweep (·.1) (·.1)
        (definition1.getEnumNames.map (entry definition1.enumerators ("", 0)))
        (definition2.getEnumNames.map (entry definition2.enumerators ("", 0)))).map
          sweptEnumerator) :=
  mapM_pairUp (("", 0) : String × Int64) (getEnumNames_inside definition1)
    (getEnumNames_inside definition2)
    (fun item among inside1 inside2 => by
      rcases item with ⟨_ | key1, _ | key2⟩
      · simpa using Sweep.sweep_sided _ _ _ among
      · simp only [Option.map, enumeratorSteps,
          getElem?_entry (("", 0) : String × Int64) (inside2 key2 rfl)]
        rfl
      · simp only [Option.map, enumeratorSteps,
          getElem?_entry (("", 0) : String × Int64) (inside1 key1 rfl)]
        rfl
      · simp only [Option.map, enumeratorSteps, Option.bind_some,
          getElem?_entry (("", 0) : String × Int64) (inside1 key1 rfl),
          getElem?_entry (("", 0) : String × Int64) (inside2 key2 rfl)]
        rfl) true

end Stg
