import Stg.Keys
import Stg.PlanRefines

set_option autoImplicit false

/- Which positions of two lists `PairUp` puts together: under each key the first ones, the
second ones, and so on. -/
namespace Stg

/-- The keys by which nodes are matched: their own ones, and numbers for those without. -/
def labels : Nat → List String → List String
  | _, [] => []
  | anonymousIx, own :: keys =>
    if own = "" then ("#anon#" ++ toString anonymousIx) :: labels (anonymousIx + 1) keys
    else own :: labels anonymousIx keys

/-- Where a label occurs, from left to right. -/
def positions (label : String) (labels : List String) : List Nat :=
  (List.range labels.length).filter fun ix => labels[ix]? = some label

/-- The two positions of a pair are both there and have this label. -/
def Compares (labels : List String) (label : String) (pair : Option Nat × Option Nat) : Prop :=
  pair.2.isSome ∧ pair.1.bind (labels[·]?) = some label

instance (labels : List String) (label : String) (pair : Option Nat × Option Nat) :
    Decidable (Compares labels label pair) := inferInstanceAs (Decidable (_ ∧ _))

/-- Every position is in one pair, and under each label the n-th occurrences are paired. -/
structure Pairing (labels1 labels2 : List String) (pairs : MatchedPairs) : Prop where
  left : (pairs.filterMap (·.1)).Perm (List.range labels1.length)
  right : (pairs.filterMap (·.2)).Perm (List.range labels2.length)
  same : ∀ ix1 ix2, (some ix1, some ix2) ∈ pairs → labels1[ix1]? = labels2[ix2]?
  nth : ∀ pair, pair ∈ pairs ↔ pair ≠ (none, none) ∧ ∃ (label : String) (n : Nat),
    pair = ((positions label labels1)[n]?, (positions label labels2)[n]?)
  count : ∀ label, pairs.countP (Compares labels1 label ·) =
    min (labels1.count label) (labels2.count label)

section Labels

variable {label : String} {labels1 labels2 : List String}

theorem mem_positions {labels : List String} {ix : Nat} :
    ix ∈ positions label labels ↔ labels[ix]? = some label := by
  rw [positions, List.mem_filter, decide_eq_true_eq, List.mem_range]
  constructor
  · exact And.right
  · intro held
    exact ⟨(List.getElem?_eq_some_iff.mp held).1, held⟩

theorem mem_sortPairs {labels : List String} {key : String × Nat} :
    key ∈ sortPairs labels.zipIdx ↔ labels[key.2]? = some key.1 := by
  rw [(sortPairs_perm _).mem_iff, List.mem_zipIdx_iff_getElem?]

theorem nodup_sortPairs (labels : List String) : (sortPairs labels.zipIdx).Nodup := by
  rw [(sortPairs_perm _).nodup_iff]
  refine List.Nodup.of_map (·.2) ?_
  rw [List.zipIdx_map_snd]
  exact List.nodup_range'

/-- Sorting keeps the positions of one label in their order. -/
theorem sortPairs_filter (label : String) (labels : List String) :
    (sortPairs labels.zipIdx).filter (·.1 = label) = (positions label labels).map (label, ·) := by
  have perm : ((sortPairs labels.zipIdx).filter (·.1 = label)).Perm
      ((positions label labels).map (label, ·)) := by
    rw [List.perm_ext_iff_of_nodup ((nodup_sortPairs labels).filter _)]
    · intro key
      rw [List.mem_filter, mem_sortPairs, decide_eq_true_eq, List.mem_map]
      constructor
      · rintro ⟨held, rfl⟩
        exact ⟨key.2, mem_positions.mpr held, rfl⟩
      · rintro ⟨ix, present, rfl⟩
        exact ⟨mem_positions.mp present, rfl⟩
    · refine List.Nodup.map ?_ (List.nodup_range.filter _)
      intro ix ix' same
      exact (Prod.mk.inj same).2
  have sorted : ((sortPairs labels.zipIdx).filter (·.1 = label)).Pairwise fun a b =>
      toLex a ≤ toLex b := (List.pairwise_insertionSort _ _).filter _
  have ascending : ((positions label labels).map (label, ·)).Pairwise fun a b =>
      toLex a ≤ toLex b := by
    rw [List.pairwise_map]
    refine (List.pairwise_lt_range.filter _).imp ?_
    intro ix ix' less
    exact Prod.Lex.toLex_le_toLex.mpr (.inr ⟨rfl, less.le⟩)
  refine perm.eq_of_pairwise ?_ sorted ascending
  intro a b _ _ before after
  exact toLex.injective (le_antisymm before after)

theorem ascending_sortPairs (labels : List String) :
    ((sortPairs labels.zipIdx).map (·.1)).Pairwise (· ≤ ·) := by
  rw [List.pairwise_map]
  refine (List.pairwise_insertionSort (fun a b : String × Nat => toLex a ≤ toLex b) _).imp ?_
  intro a b ordered
  rcases Prod.Lex.toLex_le_toLex.mp ordered with less | ⟨same, _⟩
  · exact less.le
  · exact same.le

theorem length_positions (label : String) (labels : List String) :
    (positions label labels).length = labels.count label := by
  have lengths := congrArg List.length (sortPairs_filter label labels)
  rw [List.length_map] at lengths
  rw [← lengths, ← List.countP_eq_length_filter, (sortPairs_perm _).countP_eq, List.count]
  have first : labels = labels.zipIdx.map (·.1) := by rw [List.zipIdx_map_fst]
  conv_rhs => rw [first, List.countP_map]
  refine List.countP_congr ?_
  intro key _
  simp

end Labels

section PairUp

variable {labels1 labels2 : List String} {pairs pairs' : MatchedPairs}

theorem Pairing.perm (pairing : Pairing labels1 labels2 pairs) (perm : pairs'.Perm pairs) :
    Pairing labels1 labels2 pairs' where
  left := (perm.filterMap _).trans pairing.left
  right := (perm.filterMap _).trans pairing.right
  same ix1 ix2 present := pairing.same ix1 ix2 (perm.mem_iff.mp present)
  nth pair := perm.mem_iff.trans (pairing.nth pair)
  count label := (perm.countP_eq _).trans (pairing.count label)

/-- The sweep of the sorted keys, of which the pairs are the positions. -/
def keySweep (labels1 labels2 : List String) :
    List (Option (String × Nat) × Option (String × Nat)) :=
  Sweep.sweep (·.1) (·.1) (sortPairs labels1.zipIdx) (sortPairs labels2.zipIdx)

theorem keySweep_at (labels1 labels2 : List String) (label : String) :
    (keySweep labels1 labels2).filter
        (Sweep.Reports (fun key : String × Nat => key.1) (fun key : String × Nat => key.1) label) =
      Sweep.align ((positions label labels1).map (label, ·))
        ((positions label labels2).map (label, ·)) := by
  rw [keySweep, Sweep.sweep_at (ascending_sortPairs labels1) (ascending_sortPairs labels2),
    sortPairs_filter, sortPairs_filter]

theorem mem_keySweep {item : Option (String × Nat) × Option (String × Nat)} :
    item ∈ keySweep labels1 labels2 ↔ item ≠ (none, none) ∧ ∃ (label : String) (n : Nat),
      item = ((positions label labels1)[n]?.map (label, ·),
        (positions label labels2)[n]?.map (label, ·)) := by
  have aligned : ∀ label, item ∈ (keySweep labels1 labels2).filter
      (Sweep.Reports (fun key : String × Nat => key.1) (fun key : String × Nat => key.1) label) ↔
      item ≠ (none, none) ∧ ∃ n : Nat, item = ((positions label labels1)[n]?.map (label, ·),
        (positions label labels2)[n]?.map (label, ·)) := by
    intro label
    rw [keySweep_at, List.mem_iff_getElem?]
    simp only [Sweep.getElem?_align, List.length_map, List.getElem?_map]
    constructor
    · rintro ⟨n, held⟩
      split at held
      · rename_i inside
        cases held
        refine ⟨?_, n, rfl⟩
        intro nothing
        rw [Prod.mk.injEq, Option.map_eq_none_iff, Option.map_eq_none_iff,
          List.getElem?_eq_none_iff, List.getElem?_eq_none_iff] at nothing
        omega
      · cases held
    · rintro ⟨something, n, rfl⟩
      refine ⟨n, if_pos ?_⟩
      by_contra outside
      refine something ?_
      rw [List.getElem?_eq_none (by omega), List.getElem?_eq_none (by omega)]
      rfl
  constructor
  · intro present
    have sided := Sweep.sweep_sided _ _ item present
    have reported : ∃ label, Sweep.Reports (fun key : String × Nat => key.1)
        (fun key : String × Nat => key.1) label item := by
      rcases item with ⟨_ | key1, _ | key2⟩
      · cases sided
      · exact ⟨key2.1, .inr rfl⟩
      · exact ⟨key1.1, .inl rfl⟩
      · exact ⟨key1.1, .inl rfl⟩
    obtain ⟨label, reports⟩ := reported
    obtain ⟨something, n, same⟩ :=
      (aligned label).mp (List.mem_filter.mpr ⟨present, decide_eq_true reports⟩)
    exact ⟨something, label, n, same⟩
  · rintro ⟨something, label, n, same⟩
    exact (List.mem_filter.mp ((aligned label).mpr ⟨something, n, same⟩)).1

theorem pairUp_eq (labels1 labels2 : List String) :
    pairUp (sortPairs labels1.zipIdx) (sortPairs labels2.zipIdx) =
      (keySweep labels1 labels2).map fun item => (item.1.map (·.2), item.2.map (·.2)) := rfl

theorem mem_pairUp {pair : Option Nat × Option Nat} :
    pair ∈ pairUp (sortPairs labels1.zipIdx) (sortPairs labels2.zipIdx) ↔
      pair ≠ (none, none) ∧ ∃ (label : String) (n : Nat),
        pair = ((positions label labels1)[n]?, (positions label labels2)[n]?) := by
  rw [pairUp_eq, List.mem_map]
  constructor
  · rintro ⟨item, present, rfl⟩
    obtain ⟨something, label, n, rfl⟩ := mem_keySweep.mp present
    refine ⟨?_, label, n, ?_⟩
    · simpa using something
    · simp [Option.map_map, Function.comp_def]
  · rintro ⟨something, label, n, rfl⟩
    refine ⟨_, mem_keySweep.mpr ⟨?_, label, n, rfl⟩, ?_⟩
    · simpa using something
    · simp [Option.map_map, Function.comp_def]

theorem countP_align {α β : Type} (xs : List α) (ys : List β) :
    (Sweep.align xs ys).countP (fun item => item.1.isSome && item.2.isSome) =
      min xs.length ys.length := by
  induction xs, ys using Sweep.align.induct with
  | case1 ys => simp [Sweep.align]
  | case2 x xs ih => simpa [Sweep.align] using ih
  | case3 x xs y ys ih =>
    simp only [Sweep.align, List.countP_cons, ih, List.length_cons]
    simp

theorem sortPairs_positions (labels : List String) :
    ((sortPairs labels.zipIdx).map (·.2)).Perm (List.range labels.length) := by
  have perm := (sortPairs_perm labels.zipIdx).map (·.2)
  rwa [List.zipIdx_map_snd, ← List.range_eq_range'] at perm

theorem compares_keySweep {label : String} {item : Option (String × Nat) × Option (String × Nat)}
    (present : item ∈ keySweep labels1 labels2) :
    Compares labels1 label (item.1.map (·.2), item.2.map (·.2)) ↔
      (item.1.isSome && item.2.isSome) = true ∧ Sweep.Reports (fun key : String × Nat => key.1)
        (fun key : String × Nat => key.1) label item := by
  obtain ⟨_, label', n, rfl⟩ := mem_keySweep.mp present
  cases at1 : (positions label' labels1)[n]? with
  | none => simp [Compares]
  | some ix1 =>
    have held := mem_positions.mp (List.mem_of_getElem? at1)
    cases (positions label' labels2)[n]? with
    | none => simp [Compares]
    | some ix2 => simp [Compares, held, Sweep.Reports]

theorem pairing_pairUp (labels1 labels2 : List String) :
    Pairing labels1 labels2 (pairUp (sortPairs labels1.zipIdx) (sortPairs labels2.zipIdx)) where
  left := by
    refine List.Perm.trans (List.Perm.of_eq ?_) (sortPairs_positions labels1)
    have first := congrArg (List.map (·.2)) (Sweep.sweep_left (·.1) (·.1)
      (sortPairs labels1.zipIdx) (sortPairs labels2.zipIdx))
    rw [← first, pairUp, List.filterMap_map, List.map_filterMap]
    rfl
  right := by
    refine List.Perm.trans (List.Perm.of_eq ?_) (sortPairs_positions labels2)
    have second := congrArg (List.map (·.2)) (Sweep.sweep_right (·.1) (·.1)
      (sortPairs labels1.zipIdx) (sortPairs labels2.zipIdx))
    rw [← second, pairUp, List.filterMap_map, List.map_filterMap]
    rfl
  same ix1 ix2 present := by
    obtain ⟨_, label, n, same⟩ := mem_pairUp.mp present
    rw [Prod.mk.injEq] at same
    rw [mem_positions.mp (List.mem_of_getElem? same.1.symm),
      mem_positions.mp (List.mem_of_getElem? same.2.symm)]
  nth _ := mem_pairUp
  count label := by
    have counted : (keySweep labels1 labels2).countP
        (fun item => decide (Compares labels1 label (item.1.map (·.2), item.2.map (·.2)))) =
        ((keySweep labels1 labels2).filter (Sweep.Reports (fun key : String × Nat => key.1)
          (fun key : String × Nat => key.1) label)).countP
            (fun item => item.1.isSome && item.2.isSome) := by
      rw [List.countP_filter]
      refine List.countP_congr ?_
      intro item present
      rw [Bool.and_eq_true, decide_eq_true_eq, decide_eq_true_eq]
      exact compares_keySweep present
    rw [pairUp_eq, List.countP_map]
    refine counted.trans ?_
    rw [keySweep_at, countP_align, List.length_map, List.length_map, length_positions,
      length_positions]

end PairUp

section Nodes

variable {graph : Graph} {fuel : Nat} {nodes nodes1 nodes2 : List Id} {own own1 own2 : List String}

theorem indexKeys_eq {key : Id → Except Error String} (found : nodes.mapM key = .ok own)
    (ix anonymousIx : Nat) :
    indexKeys key ix anonymousIx nodes = .ok ((labels anonymousIx own).zipIdx ix) := by
  induction nodes generalizing own ix anonymousIx with
  | nil =>
    cases found
    rfl
  | cons node nodes ih =>
    rw [List.mapM_cons] at found
    obtain ⟨first, foundFirst, found⟩ := bind_eq_ok found
    obtain ⟨rest, foundRest, found⟩ := bind_eq_ok found
    cases found
    unfold indexKeys labels
    rw [foundFirst]
    by_cases anonymous : first = ""
    · simp only [anonymous, ↓reduceIte, bind, Except.bind, ih foundRest, List.zipIdx_cons]
      rfl
    · simp only [anonymous, ↓reduceIte, bind, Except.bind, ih foundRest, List.zipIdx_cons]
      rfl

theorem matchingKeys_eq (found : nodes.mapM (matchingKey graph fuel) = .ok own) :
    matchingKeys graph fuel nodes = .ok (sortPairs (labels 0 own).zipIdx) := by
  simp only [matchingKeys, indexKeys_eq found, bind, Except.bind]
  rfl

/-- The call that `CompareNodes` makes for a pair. -/
inductive NodeCall (nodes1 nodes2 : List Id) : Option Nat × Option Nat → Step → Prop where
  | removed {ix1 : Nat} {node1 : Id} : nodes1[ix1]? = some node1 →
    NodeCall nodes1 nodes2 (some ix1, none) (.removed "" node1)
  | added {ix2 : Nat} {node2 : Id} : nodes2[ix2]? = some node2 →
    NodeCall nodes1 nodes2 (none, some ix2) (.added "" node2)
  | compare {ix1 ix2 : Nat} {node1 node2 : Id} : nodes1[ix1]? = some node1 →
    nodes2[ix2]? = some node2 →
    NodeCall nodes1 nodes2 (some ix1, some ix2) (.compare "" node1 node2)

/-- What `Enumeration::Equals` notes for a pair: a value is only mentioned if it changed. -/
inductive EnumeratorNotes (enums1 enums2 : List (String × Int64)) :
    Option Nat × Option Nat → List Step → Prop where
  | removed {ix1 : Nat} {enum1 : String × Int64} : enums1[ix1]? = some enum1 →
    EnumeratorNotes enums1 enums2 (some ix1, none) [.note (enumeratorText enum1 "removed")]
  | added {ix2 : Nat} {enum2 : String × Int64} : enums2[ix2]? = some enum2 →
    EnumeratorNotes enums1 enums2 (none, some ix2) [.note (enumeratorText enum2 "added")]
  | compare {ix1 ix2 : Nat} {enum1 enum2 : String × Int64} : enums1[ix1]? = some enum1 →
    enums2[ix2]? = some enum2 → EnumeratorNotes enums1 enums2 (some ix1, some ix2)
      (change ("enumerator " ++ quoted enum1.1 ++ " value") enum1.2 enum2.2)

theorem nodeCall_of_step {pair : Option Nat × Option Nat} {step : Step}
    (planned : nodeStep nodes1 nodes2 pair = .ok step) : NodeCall nodes1 nodes2 pair step := by
  rcases pair with ⟨_ | ix1, _ | ix2⟩
  · cases planned
  · obtain ⟨node2, held, planned⟩ := bind_eq_ok planned
    cases planned
    exact .added (deref_ok held)
  · obtain ⟨node1, held, planned⟩ := bind_eq_ok planned
    cases planned
    exact .removed (deref_ok held)
  · obtain ⟨node1, held1, planned⟩ := bind_eq_ok planned
    obtain ⟨node2, held2, planned⟩ := bind_eq_ok planned
    cases planned
    exact .compare (deref_ok held1) (deref_ok held2)

theorem enumeratorNotes_of_steps {enums1 enums2 : List (String × Int64)}
    {pair : Option Nat × Option Nat} {steps : List Step}
    (planned : enumeratorSteps enums1 enums2 pair = .ok steps) :
    EnumeratorNotes enums1 enums2 pair steps := by
  rcases pair with ⟨_ | ix1, _ | ix2⟩
  · cases planned
  · obtain ⟨enum2, held, planned⟩ := bind_eq_ok planned
    cases planned
    exact .added (deref_ok held)
  · obtain ⟨enum1, held, planned⟩ := bind_eq_ok planned
    cases planned
    exact .removed (deref_ok held)
  · obtain ⟨enum1, held1, planned⟩ := bind_eq_ok planned
    obtain ⟨enum2, held2, planned⟩ := bind_eq_ok planned
    cases planned
    exact .compare (deref_ok held1) (deref_ok held2)

theorem forall₂_of_mapM {α β : Type} {f : α → Except Error β} {items : List α} {outs : List β}
    (made : items.mapM f = .ok outs) :
    List.Forall₂ (fun item out => f item = .ok out) items outs := by
  induction items generalizing outs with
  | nil =>
    cases made
    exact .nil
  | cons item items ih =>
    rw [List.mapM_cons] at made
    obtain ⟨out, madeHere, made⟩ := bind_eq_ok made
    obtain ⟨rest, madeRest, made⟩ := bind_eq_ok made
    cases made
    exact .cons madeHere (ih madeRest)

theorem nodeSteps_pairs (found1 : nodes1.mapM (matchingKey graph fuel) = .ok own1)
    (found2 : nodes2.mapM (matchingKey graph fuel) = .ok own2) (reordered : Bool) :
    ∃ pairs steps, arrange reordered (pairUp (sortPairs (labels 0 own1).zipIdx)
        (sortPairs (labels 0 own2).zipIdx)) = .ok pairs ∧
      nodeSteps graph fuel nodes1 nodes2 reordered = .ok steps ∧
      List.Forall₂ (NodeCall nodes1 nodes2) pairs steps := by
  have keys1 := matchingKeys_eq found1
  have keys2 := matchingKeys_eq found2
  obtain ⟨steps, planned, _⟩ := nodeSteps_perm keys1 keys2 reordered
  have planned' := planned
  unfold nodeSteps at planned'
  obtain ⟨keys1', held1, rest1⟩ := bind_eq_ok planned'
  obtain ⟨keys2', held2, rest2⟩ := bind_eq_ok rest1
  obtain ⟨pairs, arranged, made⟩ := bind_eq_ok rest2
  cases keys1.symm.trans held1
  cases keys2.symm.trans held2
  exact ⟨pairs, steps, arranged, planned, (forall₂_of_mapM made).imp fun _ _ => nodeCall_of_step⟩

theorem getEnumNames_eq (definition : Enumeration.Definition) :
    definition.getEnumNames = sortPairs (definition.enumerators.map (·.1)).zipIdx := by
  rw [Enumeration.Definition.getEnumNames, List.zipIdx_map]
  rfl

/-- `CompareNodes` and `Enumeration::Equals` deal with every position of the two lists exactly
once, compare the n-th positions of each key, and remove or add what is left. -/
theorem compareNodes_pairs (graph : Graph) (fuel : Nat) (nodes1 nodes2 : List Id)
    (own1 own2 : List String) (found1 : nodes1.mapM (matchingKey graph fuel) = .ok own1)
    (found2 : nodes2.mapM (matchingKey graph fuel) = .ok own2)
    (nested : Id → Id → CompareM Answer) :
    (∀ (reordered : Bool) (result : Result), ∃ pairs steps,
      Pairing (labels 0 own1) (labels 0 own2) pairs ∧
      (if reordered then reorder (pairUp (sortPairs (labels 0 own1).zipIdx)
          (sortPairs (labels 0 own2).zipIdx)) = .ok pairs
        else pairs = pairUp (sortPairs (labels 0 own1).zipIdx)
          (sortPairs (labels 0 own2).zipIdx)) ∧
      List.Forall₂ (NodeCall nodes1 nodes2) pairs steps ∧
      compareNodes ⟨nested, removed, added⟩ graph fuel result nodes1 nodes2 reordered =
        runSteps ⟨nested, removed, added⟩ steps result) ∧
    ∀ (options : CompareOptions) (name : String) (definition1 definition2 : Enumeration.Definition),
      ∃ pairs steps,
        Pairing (definition1.enumerators.map (·.1)) (definition2.enumerators.map (·.1)) pairs ∧
        reorder (pairUp definition1.getEnumNames definition2.getEnumNames) = .ok pairs ∧
        List.Forall₂ (EnumeratorNotes definition1.enumerators definition2.enumerators) pairs steps ∧
        (Enumeration.equals options ⟨name, definition1⟩ ⟨name, definition2⟩ : CompareM Result) =
          runSteps ⟨nested, removed, added⟩
            (change "byte size" definition1.bytesize definition2.bytesize ++ steps.flatten)
            { diff := { holdsChanges := name ≠ "" } } := by
  constructor
  · intro reordered result
    obtain ⟨pairs, steps, arranged, planned, calls⟩ := nodeSteps_pairs found1 found2 reordered
    have sided := pairUp_sided (sortPairs (labels 0 own1).zipIdx) (sortPairs (labels 0 own2).zipIdx)
    obtain ⟨pairs', arranged', perm⟩ := arrange_perm sided reordered
    cases arranged.symm.trans arranged'
    refine ⟨pairs, steps, (pairing_pairUp _ _).perm perm, ?_, calls, compareNodes_eq _ planned _⟩
    cases reordered with
    | false =>
      cases arranged
      rfl
    | true => exact arranged
  · intro options name definition1 definition2
    obtain ⟨pairs, steps, arranged, planned, _⟩ := enumeratorSteps_perm definition1 definition2
    have sided := pairUp_sided definition1.getEnumNames definition2.getEnumNames
    obtain ⟨pairs', arranged', perm⟩ := reorder_spec _ sided
    cases arranged.symm.trans arranged'
    refine ⟨pairs, steps, ?_, arranged,
      (forall₂_of_mapM planned).imp fun _ _ => enumeratorNotes_of_steps, ?_⟩
    · rw [getEnumNames_eq, getEnumNames_eq] at perm
      exact (pairing_pairUp _ _).perm perm
    · have whole : Enumeration.plan options ⟨name, some definition1⟩ ⟨name, some definition2⟩ =
          .ok ⟨name ≠ "", change "byte size" definition1.bytesize definition2.bytesize ++
            steps.flatten⟩ := by
        simp only [Enumeration.plan, ne_eq, not_true_eq_false, ↓reduceIte, arranged, planned, bind,
          Except.bind]
        rfl
      exact Enumeration.equals_eq ⟨nested, removed, added⟩ whole

/-- Members with one name twice, and members without a name. -/
def repeatedMembers : Graph where
  nodes := [
    some (.integer ⟨"int", .signedInteger, 32, 4⟩),
    some (.member ⟨"x", ⟨0⟩, 0, 0⟩),
    some (.member ⟨"", ⟨0⟩, 32, 0⟩)]

theorem compareNodes_pairs_repeated :
    labels 0 ["x", "", "x", ""] = ["x", "#anon#0", "x", "#anon#1"] ∧
      ∃ pairs, Pairing ["x", "#anon#0", "x", "#anon#1"] ["#anon#0", "x"] pairs ∧
        pairs.countP (Compares ["x", "#anon#0", "x", "#anon#1"] "x" ·) = 1 := by
  refine ⟨by decide, ?_⟩
  obtain ⟨pairs, steps, pairing, _⟩ := (compareNodes_pairs repeatedMembers 2
    [⟨1⟩, ⟨2⟩, ⟨1⟩, ⟨2⟩] [⟨2⟩, ⟨1⟩] ["x", "", "x", ""] ["", "x"] rfl rfl
    (compare repeatedMembers {} 2)).1 true {}
  exact ⟨pairs, pairing, pairing.count "x"⟩

end Nodes

end Stg
