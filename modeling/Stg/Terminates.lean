import Stg.Fuel
import Stg.Keys

set_option autoImplicit false

/- On a graph whose references are set and whose walks end, every examination has
a plan, with one fuel for the whole graph, and only requests nodes that are set. -/
namespace Stg

/-- The walks that no component finder guards end from every node. -/
structure Graph.Resolves (graph : Graph) : Prop where
  qualifiers : ∀ id, graph.Is id → ∃ fuel out, resolveQualifiers graph fuel id ∅ = .ok out
  typedefs : ∀ id, graph.Is id → ∃ fuel out, resolveTypedefs graph fuel id [] = .ok out
  keys : ∀ id, graph.Is id → ∃ fuel key, matchingKey graph fuel id = .ok key

structure Graph.ResolvesWithin (graph : Graph) (fuel : Nat) : Prop where
  qualifiers : ∀ id, graph.Is id → ∃ out, resolveQualifiers graph fuel id ∅ = .ok out
  typedefs : ∀ id, graph.Is id → ∃ out, resolveTypedefs graph fuel id [] = .ok out
  keys : ∀ id, graph.Is id → ∃ key, matchingKey graph fuel id = .ok key

/-- A finite graph has a fuel that is enough for all of its nodes at once. -/
theorem uniform_fuel {α : Type} {graph : Graph} {inside : Id → Prop}
    {walk : Nat → Id → Except Error α}
    (set : ∀ id, inside id → graph.Is id)
    (grows : ∀ fuel fuel' id, fuel ≤ fuel' → Yields (walk fuel id) (walk fuel' id))
    (each : ∀ id, inside id → ∃ fuel out, walk fuel id = .ok out) :
    ∃ enough, ∀ fuel, enough ≤ fuel → ∀ id, inside id → ∃ out, walk fuel id = .ok out := by
  have below : ∀ bound, ∃ enough, ∀ id, id.ix < bound → inside id →
      ∃ out, walk enough id = .ok out := by
    intro bound
    induction bound with
    | zero => exact ⟨0, fun id less => absurd less (Nat.not_lt_zero _)⟩
    | succ bound ih =>
      obtain ⟨enough, returns⟩ := ih
      by_cases within : inside ⟨bound⟩
      · obtain ⟨fuel, last, returned⟩ := each ⟨bound⟩ within
        refine ⟨max enough fuel, fun id less within => ?_⟩
        rcases Nat.lt_succ_iff_lt_or_eq.mp less with less | equal
        · obtain ⟨out, returned⟩ := returns id less within
          exact ⟨out, grows _ _ id (Nat.le_max_left _ _) out returned⟩
        · obtain rfl : id = ⟨bound⟩ := by cases id; exact congrArg _ equal
          exact ⟨last, grows _ _ _ (Nat.le_max_right _ _) last returned⟩
      · refine ⟨enough, fun id less withinId => ?_⟩
        rcases Nat.lt_succ_iff_lt_or_eq.mp less with less | equal
        · exact returns id less withinId
        · obtain rfl : id = ⟨bound⟩ := by cases id; exact congrArg _ equal
          exact absurd withinId within
  obtain ⟨enough, returns⟩ := below graph.nodes.length
  refine ⟨enough, fun fuel more id within => ?_⟩
  obtain ⟨out, returned⟩ := returns id (set id within).lt within
  exact ⟨out, grows _ _ id more out returned⟩

theorem Graph.Resolves.within {graph : Graph} (resolves : graph.Resolves) :
    ∃ enough, ∀ fuel, enough ≤ fuel → graph.ResolvesWithin fuel := by
  obtain ⟨enoughQ, qualifiers⟩ := uniform_fuel (fun _ set => set)
    (fun _ _ id more => resolveQualifiers_yields more id ∅) resolves.qualifiers
  obtain ⟨enoughT, typedefs⟩ := uniform_fuel (fun _ set => set)
    (fun _ _ id more => resolveTypedefs_yields more id []) resolves.typedefs
  obtain ⟨enoughK, keys⟩ := uniform_fuel (fun _ set => set)
    (fun _ _ id more => matchingKey_yields more id) resolves.keys
  refine ⟨max enoughQ (max enoughT enoughK), fun fuel more => ⟨?_, ?_, ?_⟩⟩
  · exact qualifiers fuel (by omega)
  · exact typedefs fuel (by omega)
  · exact keys fuel (by omega)

section Walks

variable {graph : Graph} {fuel : Nat}

/-- A walk that ends has begun at a node that is set. -/
theorem resolveQualifiers_start {id : Id} {qualifiers : Qualifiers} {out : Id × Qualifiers}
    (found : resolveQualifiers graph fuel id qualifiers = .ok out) : graph.Is id := by
  cases fuel with
  | zero => cases found
  | succ fuel =>
    obtain ⟨node, got, _⟩ := bind_eq_ok found
    exact ⟨node, got⟩

theorem resolveQualifiers_end {id last : Id} {qualifiers collected : Qualifiers}
    (found : resolveQualifiers graph fuel id qualifiers = .ok (last, collected)) :
    ∃ node, graph.get last = .ok node ∧ node.kind ≠ .qualified := by
  induction fuel generalizing id qualifiers with
  | zero => cases found
  | succ fuel ih =>
    obtain ⟨node, got, found⟩ := bind_eq_ok found
    cases node
    case qualified => exact ih found
    all_goals
      cases found
      exact ⟨_, got, by simp [Node.kind]⟩

/-- Whether a walk along qualifiers ends does not depend on what it has collected. -/
theorem resolveQualifiers_ends {id : Id} {collected : Qualifiers} {out : Id × Qualifiers}
    (found : resolveQualifiers graph fuel id collected = .ok out) (collected' : Qualifiers) :
    ∃ out', resolveQualifiers graph fuel id collected' = .ok out' := by
  induction fuel generalizing id collected collected' with
  | zero => cases found
  | succ fuel ih =>
    obtain ⟨node, got, rest⟩ := bind_eq_ok found
    rw [resolveQualifiers, got]
    cases node with
    | qualified => exact ih rest _
    | _ => exact ⟨_, rfl⟩

theorem resolveTypedefs_start {id : Id} {typedefs : List String} {out : Id × List String}
    (found : resolveTypedefs graph fuel id typedefs = .ok out) : graph.Is id := by
  cases fuel with
  | zero => cases found
  | succ fuel =>
    obtain ⟨node, got, _⟩ := bind_eq_ok found
    exact ⟨node, got⟩

theorem resolveTypedefs_end {id last : Id} {typedefs names : List String}
    (found : resolveTypedefs graph fuel id typedefs = .ok (last, names)) :
    ∃ node, graph.get last = .ok node ∧ node.kind ≠ .typedef := by
  induction fuel generalizing id typedefs with
  | zero => cases found
  | succ fuel ih =>
    obtain ⟨node, got, found⟩ := bind_eq_ok found
    cases node
    case typedef => exact ih found
    all_goals
      cases found
      exact ⟨_, got, by simp [Node.kind]⟩

/-- The keys of a list are found if each is. -/
theorem indexKeys_total {key : Id → Except Error String} {nodes : List Id}
    (keyed : ∀ id ∈ nodes, ∃ own, key id = .ok own) (ix anonymousIx : Nat) :
    ∃ keys, indexKeys key ix anonymousIx nodes = .ok keys := by
  induction nodes generalizing ix anonymousIx with
  | nil => exact ⟨[], rfl⟩
  | cons node nodes ih =>
    obtain ⟨own, found⟩ := keyed node (by simp)
    have deeper := fun anonymousIx =>
      ih (fun id present => keyed id (by simp [present])) (ix + 1) anonymousIx
    unfold indexKeys
    rw [found]
    simp only [bind, Except.bind]
    split
    · obtain ⟨rest, found⟩ := deeper (anonymousIx + 1)
      exact ⟨_, by rw [found]; rfl⟩
    · obtain ⟨rest, found⟩ := deeper anonymousIx
      exact ⟨_, by rw [found]; rfl⟩

theorem matchingKeys_total (within : graph.ResolvesWithin fuel) {nodes : List Id}
    (set : ∀ id ∈ nodes, graph.Is id) : ∃ keys, matchingKeys graph fuel nodes = .ok keys := by
  obtain ⟨keys, found⟩ := indexKeys_total (fun id present => within.keys id (set id present)) 0 0
  exact ⟨_, by rw [matchingKeys, found]; rfl⟩

end Walks

/-- The nodes a step mentions lie inside the given sets, by side. -/
def Step.Within (inside1 inside2 : Id → Prop) : Step → Prop
  | .note _ | .incomparable => True
  | .removed _ node1 => inside1 node1
  | .added _ node2 => inside2 node2
  | .compare _ node1 node2 => inside1 node1 ∧ inside2 node2

section Within

variable {inside1 inside2 : Id → Prop}

/-- Differences of the examination's own mention no node. -/
theorem within_change {α : Type} [DecidableEq α] [Print α] (text : String)
    (before after : α) : ∀ step ∈ change text before after, step.Within inside1 inside2 := by
  unfold change
  split <;> simp [Step.Within]

theorem within_optionalChange {α : Type} [DecidableEq α] [Print α] (text : String)
    (before after : Option α) :
    ∀ step ∈ optionalChange text before after, step.Within inside1 inside2 := by
  rcases before with _ | before <;> rcases after with _ | after
  · simp [optionalChange]
  · simp [optionalChange, Step.Within]
  · simp [optionalChange, Step.Within]
  · exact within_change text before after

theorem within_versionChange (version1 version2 : Option ElfSymbol.VersionInfo) :
    ∀ step ∈ versionChange version1 version2, step.Within inside1 inside2 := by
  unfold versionChange
  split
  · exact List.forall_mem_append.mpr ⟨within_change _ _ _, within_change _ _ _⟩
  · exact within_change _ _ _

theorem within_sweptStep {nodes1 nodes2 : List (String × Id)} {step : Step}
    (present : step ∈ (Sweep.sweep (·.1) (·.1) nodes1 nodes2).map sweptStep) :
    step.Within (fun id => ∃ key, (key, id) ∈ nodes1) (fun id => ∃ key, (key, id) ∈ nodes2) := by
  obtain ⟨⟨node1, node2⟩, among, rfl⟩ := List.mem_map.mp present
  rcases node1 with _ | node1 <;> rcases node2 with _ | node2
  · trivial
  · exact ⟨_, Sweep.mem_right among⟩
  · exact ⟨_, Sweep.mem_left among⟩
  · exact ⟨⟨_, Sweep.mem_left among⟩, _, Sweep.mem_right among⟩

theorem Step.Within.imp {inside1' inside2' : Id → Prop} {step : Step}
    (within : step.Within inside1 inside2) (first : ∀ id, inside1 id → inside1' id)
    (second : ∀ id, inside2 id → inside2' id) : step.Within inside1' inside2' := by
  cases step with
  | note | incomparable => trivial
  | removed text node => exact first _ within
  | added text node => exact second _ within
  | compare text node1 node2 => exact ⟨first _ within.1, second _ within.2⟩

end Within

section Plans

variable {graph : Graph} {options : CompareOptions} {fuel : Nat}

/-- An index of a pair is one of the list, and so its node is among the children. -/
theorem mem_of_entry {keys : KeyIndexPairs} {nodes : List Id} (inside : keys.Inside nodes.length)
    {key : String} {id : Id} (present : (key, id) ∈ keys.map (entry nodes ⟨0⟩)) : id ∈ nodes := by
  obtain ⟨pair, among, same⟩ := List.mem_map.mp present
  have held := getElem?_entry (⟨0⟩ : Id) (inside pair among)
  rw [same] at held
  exact List.mem_of_getElem? held

/-- Children are arranged without failure, since each pair has an index. -/
theorem nodeSteps_total (within : graph.ResolvesWithin fuel) {nodes1 nodes2 : List Id}
    (set1 : ∀ id ∈ nodes1, graph.Is id) (set2 : ∀ id ∈ nodes2, graph.Is id) (reordered : Bool) :
    ∃ steps, nodeSteps graph fuel nodes1 nodes2 reordered = .ok steps ∧
      ∀ step ∈ steps, step.Within (· ∈ nodes1) (· ∈ nodes2) := by
  obtain ⟨keys1, found1⟩ := matchingKeys_total within set1
  obtain ⟨keys2, found2⟩ := matchingKeys_total within set2
  obtain ⟨steps, planned, perm⟩ := nodeSteps_perm found1 found2 reordered
  refine ⟨steps, planned, fun step present => ?_⟩
  refine (within_sweptStep (perm.mem_iff.mp present)).imp ?_ ?_
  · rintro id ⟨key, among⟩
    exact mem_of_entry (matchingKeys_inside found1) among
  · rintro id ⟨key, among⟩
    exact mem_of_entry (matchingKeys_inside found2) among

theorem within_statusChange {inside1 inside2 : Id → Prop} (defined1 defined2 ignoreDiff : Bool) :
    ∀ step ∈ statusChange defined1 defined2 ignoreDiff, step.Within inside1 inside2 := by
  unfold statusChange
  split <;> simp [Step.Within]

/-- The children on each side are references of the definition there. -/
theorem StructUnion.plan_total (within : graph.ResolvesWithin fuel) (self other : StructUnion)
    (set1 : ∀ id ∈ (Node.structUnion self).references, graph.Is id)
    (set2 : ∀ id ∈ (Node.structUnion other).references, graph.Is id) :
    ∃ plan, self.plan graph options fuel other = .ok plan ∧
      ∀ step ∈ plan.steps, step.Within graph.Is graph.Is := by
  unfold StructUnion.plan
  split
  · exact ⟨_, rfl, by simp [Step.Within]⟩
  split
  · rename_i definition1 definition2 defined1 defined2
    simp only [Node.references, defined1, defined2, List.mem_append] at set1 set2
    obtain ⟨baseClasses, plannedBases, insideBases⟩ := nodeSteps_total within
      (fun id present => set1 id (.inl (.inl present)))
      (fun id present => set2 id (.inl (.inl present))) true
    obtain ⟨methods, plannedMethods, insideMethods⟩ := nodeSteps_total within
      (fun id present => set1 id (.inl (.inr present)))
      (fun id present => set2 id (.inl (.inr present))) false
    obtain ⟨members, plannedMembers, insideMembers⟩ := nodeSteps_total within
      (fun id present => set1 id (.inr present)) (fun id present => set2 id (.inr present)) true
    refine ⟨_, by rw [plannedBases, plannedMethods, plannedMembers]; rfl, ?_⟩
    intro step present
    simp only [List.mem_append] at present
    rcases present with ((present | present) | present) | present
    · exact within_change _ _ _ step present
    · exact (insideBases step present).imp (fun id among => set1 id (.inl (.inl among)))
        fun id among => set2 id (.inl (.inl among))
    · exact (insideMethods step present).imp (fun id among => set1 id (.inl (.inr among)))
        fun id among => set2 id (.inl (.inr among))
    · exact (insideMembers step present).imp (fun id among => set1 id (.inr among))
        fun id among => set2 id (.inr among)
  · exact ⟨_, rfl, within_statusChange _ _ _⟩

theorem Enumeration.plan_total {inside1 inside2 : Id → Prop} (self other : Enumeration) :
    ∃ plan, self.plan options other = .ok plan ∧
      ∀ step ∈ plan.steps, step.Within inside1 inside2 := by
  unfold Enumeration.plan
  split
  · exact ⟨_, rfl, by simp [Step.Within]⟩
  split
  · rename_i definition1 definition2 defined1 defined2
    obtain ⟨pairs, steps, reordered, planned, perm⟩ :=
      enumeratorSteps_perm definition1 definition2
    refine ⟨_, by rw [reordered]; simp only [bind, Except.bind, planned]; rfl, ?_⟩
    intro step present
    rcases List.mem_append.mp present with present | present
    · exact within_change _ _ _ step present
    · obtain ⟨group, among, present⟩ := List.mem_flatten.mp present
      obtain ⟨⟨enum1, enum2⟩, _, rfl⟩ := List.mem_map.mp (perm.mem_iff.mp among)
      rcases enum1 with _ | enum1 <;> rcases enum2 with _ | enum2
      · cases present
      · rw [List.mem_singleton.mp present]; trivial
      · rw [List.mem_singleton.mp present]; trivial
      · exact within_change _ _ _ step present
  · exact ⟨_, rfl, within_statusChange _ _ _⟩

/-- Parameters are taken from the lists on their own sides. -/
theorem FunctionNode.plan_within (self other : FunctionNode)
    (set1 : ∀ id ∈ (Node.function self).references, graph.Is id)
    (set2 : ∀ id ∈ (Node.function other).references, graph.Is id) :
    ∀ step ∈ (self.plan other).steps, step.Within graph.Is graph.Is := by
  simp only [Node.references, List.forall_mem_cons, List.forall_mem_map] at set1 set2
  intro step present
  simp only [FunctionNode.plan, List.cons_append, List.mem_cons, List.mem_append] at present
  rcases present with rfl | present | present
  · exact ⟨set1.1, set2.1⟩
  · obtain ⟨⟨⟨parameter1, parameter2⟩, i⟩, among, rfl⟩ := List.mem_map.mp present
    have zipped := List.of_mem_zip (List.fst_mem_of_mem_zipIdx among)
    exact ⟨set1.2 _ zipped.1, set2.2 _ zipped.2⟩
  · unfold unmatchedSteps at present
    split at present
    · obtain ⟨⟨parameter, i⟩, among, rfl⟩ := List.mem_map.mp present
      exact set2.2 _ (List.mem_of_mem_drop (List.fst_mem_of_mem_zipIdx among))
    · obtain ⟨⟨parameter, i⟩, among, rfl⟩ := List.mem_map.mp present
      exact set1.2 _ (List.mem_of_mem_drop (List.fst_mem_of_mem_zipIdx among))

/-- Swept symbols come from the maps. -/
theorem Symbols.plan_within (self other : Symbols)
    (set1 : ∀ id ∈ (Node.symbols self).references, graph.Is id)
    (set2 : ∀ id ∈ (Node.symbols other).references, graph.Is id) :
    ∀ step ∈ (self.plan other).steps, step.Within graph.Is graph.Is := by
  simp only [Node.references, List.forall_mem_map] at set1 set2
  intro step present
  simp only [Symbols.plan, List.mem_append, List.mem_map, List.mem_filterMap] at present
  rcases present with (⟨symbol, ⟨⟨side1, side2⟩, among, picked⟩, rfl⟩ |
    ⟨symbol, ⟨⟨side1, side2⟩, among, picked⟩, rfl⟩) |
    ⟨⟨symbol1, symbol2⟩, ⟨⟨side1, side2⟩, among, picked⟩, rfl⟩
  all_goals
    rcases side1 with _ | side1 <;> rcases side2 with _ | side2 <;> cases picked
  · exact set1 _ (Sweep.mem_left among)
  · exact set2 _ (Sweep.mem_right among)
  · exact ⟨set1 _ (Sweep.mem_left among), set2 _ (Sweep.mem_right among)⟩

theorem ElfSymbol.plan_within (self other : ElfSymbol)
    (set1 : ∀ id ∈ (Node.elfSymbol self).references, graph.Is id)
    (set2 : ∀ id ∈ (Node.elfSymbol other).references, graph.Is id) :
    ∀ step ∈ (self.plan options other).steps, step.Within graph.Is graph.Is := by
  have types : ∀ step ∈ symbolTypeSteps options.ignoreSymbolTypePresenceChanges
      self.typeId other.typeId, step.Within graph.Is graph.Is := by
    simp only [Node.references, Option.mem_toList] at set1 set2
    unfold symbolTypeSteps
    split
    · rename_i type1 type2 held1 held2
      simpa [Step.Within] using And.intro (set1 type1 held1) (set2 type2 held2)
    · rename_i type1 held1 held2
      split <;> simp [Step.Within, set1 type1 held1]
    · rename_i type2 held1 held2
      split <;> simp [Step.Within, set2 type2 held2]
    · simp
  simp only [ElfSymbol.plan, List.forall_mem_append]
  exact ⟨⟨⟨⟨⟨⟨⟨within_change _ _ _, within_versionChange _ _⟩, within_change _ _ _⟩,
    within_change _ _ _⟩,
    within_change _ _ _⟩, within_change _ _ _⟩, within_optionalChange _ _ _⟩, types⟩

/-- Two nodes of the same kind, neither of them a typedef or a qualified type,
have a plan that stays among their references. -/
theorem Node.plan_total (within : graph.ResolvesWithin fuel) {self other : Node}
    (same : self.kind = other.kind) (notTypedef : self.kind ≠ .typedef)
    (notQualified : self.kind ≠ .qualified) (set1 : ∀ id ∈ self.references, graph.Is id)
    (set2 : ∀ id ∈ other.references, graph.Is id) :
    ∃ plan, self.plan graph options fuel other = .ok plan ∧
      ∀ step ∈ plan.steps, step.Within graph.Is graph.Is := by
  cases self <;> cases other <;> first | (cases same; done) | skip
  case void.void => exact ⟨_, rfl, by simp⟩
  case variadic.variadic => exact ⟨_, rfl, by simp⟩
  case typedef.typedef => exact absurd rfl notTypedef
  case qualified.qualified => exact absurd rfl notQualified
  case structUnion.structUnion self other =>
    exact StructUnion.plan_total within self other set1 set2
  case enumeration.enumeration self other => exact Enumeration.plan_total self other
  case function.function self other => exact ⟨_, rfl, FunctionNode.plan_within self other set1 set2⟩
  case symbols.symbols self other => exact ⟨_, rfl, Symbols.plan_within self other set1 set2⟩
  case pointerReference.pointerReference self other =>
    refine ⟨_, rfl, ?_⟩
    unfold PointerReference.plan
    split
    · simp [Step.Within]
    · simpa [Step.Within, Node.references] using And.intro set1 set2
  case integer.integer self other =>
    refine ⟨_, rfl, ?_⟩
    unfold Integer.plan
    split <;> simp only [List.forall_mem_append]
    · exact ⟨⟨within_change _ _ _, within_change _ _ _⟩, within_change _ _ _⟩
    · exact ⟨⟨within_change _ _ _, within_change _ _ _⟩, by simp⟩
  case elfSymbol.elfSymbol self other =>
    exact ⟨_, rfl, ElfSymbol.plan_within self other set1 set2⟩
  all_goals
    rename_i self other
    refine ⟨_, rfl, ?_⟩
    simp only [ArrayNode.plan, BaseClass.plan, Member.plan, Method.plan, List.forall_mem_append,
      List.forall_mem_singleton]
    simp only [Node.references, List.forall_mem_singleton] at set1 set2
  · exact ⟨within_change _ _ _, set1, set2⟩
  · exact ⟨⟨within_change _ _ _, within_change _ _ _⟩, set1, set2⟩
  · exact ⟨⟨within_change _ _ _, within_change _ _ _⟩, set1, set2⟩
  · exact ⟨⟨within_change _ _ _, within_optionalChange _ _ _⟩, set1, set2⟩

theorem within_qualifierSteps {inside1 inside2 : Id → Prop} (qualifiers1 qualifiers2 : Qualifiers) :
    ∀ step ∈ qualifierSteps qualifiers1 qualifiers2, step.Within inside1 inside2 := by
  intro step present
  obtain ⟨⟨side1, side2⟩, _, picked⟩ := List.mem_filterMap.mp present
  rcases side1 with _ | side1 <;> rcases side2 with _ | side2 <;> cases picked <;> trivial

/-- An examination of set nodes has a plan and requests set nodes only. -/
theorem planOf_total (options : CompareOptions) (references : graph.ReferencesSet)
    (within : graph.ResolvesWithin fuel)
    {node1 node2 : Id} (set1 : graph.Is node1) (set2 : graph.Is node2) :
    ∃ plan, planOf graph options fuel node1 node2 = .ok plan ∧
      ∀ step ∈ plan.steps, step.Within graph.Is graph.Is := by
  obtain ⟨⟨unqualified1, qualifiers1⟩, found1⟩ := within.qualifiers node1 set1
  obtain ⟨⟨unqualified2, qualifiers2⟩, found2⟩ := within.qualifiers node2 set2
  obtain ⟨type1, got1, unqualifiedKind⟩ := resolveQualifiers_end found1
  obtain ⟨type2, got2, _⟩ := resolveQualifiers_end found2
  obtain ⟨⟨resolved1, typedefs1⟩, reached1⟩ := within.typedefs unqualified1 ⟨_, got1⟩
  obtain ⟨⟨resolved2, typedefs2⟩, reached2⟩ := within.typedefs unqualified2 ⟨_, got2⟩
  obtain ⟨end1, gotEnd1, untypedefKind⟩ := resolveTypedefs_end reached1
  obtain ⟨end2, gotEnd2, _⟩ := resolveTypedefs_end reached2
  simp only [planOf, found1, found2, bind, Except.bind]
  split
  · refine ⟨_, rfl, List.forall_mem_append.mpr ⟨within_qualifierSteps _ _, ?_⟩⟩
    rw [List.forall_mem_singleton]
    exact ⟨⟨_, got1⟩, _, got2⟩
  simp only [reached1, reached2]
  split
  · refine ⟨_, rfl, ?_⟩
    rw [List.forall_mem_singleton]
    exact ⟨⟨_, gotEnd1⟩, _, gotEnd2⟩
  rename_i unnamed
  obtain ⟨rfl, rfl⟩ : unqualified1 = resolved1 ∧ unqualified2 = resolved2 := by
    rw [not_or, not_not, not_not] at unnamed
    exact unnamed
  obtain rfl : type1 = end1 := Except.ok.inj (got1.symm.trans gotEnd1)
  simp only [got1, got2]
  split
  · exact ⟨_, rfl, by simp [Step.Within]⟩
  rename_i same
  exact Node.plan_total within (not_not.mp same) untypedefKind unqualifiedKind
    (references _ _ got1) (references _ _ got2)

end Plans

end Stg
