import Stg.Lib.Entries
import Stg.Related

set_option autoImplicit false

/- The examinations of related nodes, in one graph or in two, take related steps. -/
namespace Stg

variable {ρ σ : Id → Id → Prop} {graph graph' : Graph} {options : CompareOptions}
  {fuel fuel' : Nat} {plan plan' : Plan}

/-- The steps do the same to related nodes, up to their texts. -/
inductive Step.Related (ρ : Id → Id → Prop) : Step → Step → Prop where
  | note {text text' : String} : Step.Related ρ (.note text) (.note text')
  | incomparable : Step.Related ρ .incomparable .incomparable
  | removed {text text' : String} {node node' : Id} : ρ node node' →
    Step.Related ρ (.removed text node) (.removed text' node')
  | added {text text' : String} {node node' : Id} : ρ node node' →
    Step.Related ρ (.added text node) (.added text' node')
  | compare {text text' : String} {node1 node2 node1' node2' : Id} : ρ node1 node1' →
    ρ node2 node2' → Step.Related ρ (.compare text node1 node2) (.compare text' node1' node2')

/-- The second plan takes related steps. -/
def Plan.Related (ρ : Id → Id → Prop) (plan plan' : Plan) : Prop :=
  List.Forall₂ (Step.Related ρ) plan.steps plan'.steps

theorem Step.Related.clean {step step' : Step} (related : step.Related ρ step') :
    step'.clean = step.clean := by
  cases related <;> rfl

theorem Plan.Related.clean (related : plan.Related ρ plan') : plan'.clean = plan.clean := by
  have steps : ∀ steps steps' : List Step, List.Forall₂ (Step.Related ρ) steps steps' →
      steps'.all Step.clean = steps.all Step.clean := by
    intro steps steps' related
    induction related with
    | nil => rfl
    | cons step _ ih => rw [List.all_cons, List.all_cons, step.clean, ih]
  exact steps _ _ related

theorem Plan.Related.child (related : plan.Related ρ plan') {node1' node2' : Id}
    (present : (some node1', some node2') ∈ plan'.children) : ∃ node1 node2,
      (some node1, some node2) ∈ plan.children ∧ ρ node1 node1' ∧ ρ node2 node2' := by
  obtain ⟨step', among', isChild'⟩ := List.mem_filterMap.mp present
  obtain ⟨step, among, held⟩ := forall₂_mem_right related among'
  cases held with
  | compare first second =>
    cases isChild'
    exact ⟨_, _, List.mem_filterMap.mpr ⟨_, among, rfl⟩, first, second⟩
  | _ => cases isChild'

section Steps

/-- Steps that look at no node are related to themselves. -/
theorem related_same {steps : List Step}
    (each : ∀ step ∈ steps, step.Within (fun _ => False) fun _ => False) :
    List.Forall₂ (Step.Related ρ) steps steps := by
  refine List.forall₂_same.mpr fun step present => ?_
  have within := each step present
  cases step with
  | note => exact .note
  | incomparable => exact .incomparable
  | removed => exact within.elim
  | added => exact within.elim
  | compare => exact within.1.elim

theorem related_change {α : Type} [DecidableEq α] [Print α] (text : String) (before after : α) :
    List.Forall₂ (Step.Related ρ) (change text before after) (change text before after) :=
  related_same (within_change text before after)

theorem related_compare {text text' : String} {node1 node2 node1' node2' : Id}
    (first : ρ node1 node1') (second : ρ node2 node2') : List.Forall₂ (Step.Related ρ)
      [.compare text node1 node2] [.compare text' node1' node2'] :=
  .cons (.compare first second) .nil

theorem related_append {steps steps' more more' : List Step}
    (first : List.Forall₂ (Step.Related ρ) steps steps')
    (second : List.Forall₂ (Step.Related ρ) more more') :
    List.Forall₂ (Step.Related ρ) (steps ++ more) (steps' ++ more') :=
  List.rel_append first second

theorem getElem?_related {nodes nodes' : List Id} (related : List.Forall₂ ρ nodes nodes')
    (i : Nat) : Option.Rel ρ nodes[i]? nodes'[i]? := by
  induction related generalizing i with
  | nil => exact .none
  | cons head _ ih =>
    cases i with
    | zero => exact .some head
    | succ i => exact ih i

theorem deref_related {found found' : Option Id} (related : Option.Rel ρ found found') {node : Id}
    (held : deref found = Except.ok (ε := Error) node) :
    ∃ node', deref found' = Except.ok (ε := Error) node' ∧ ρ node node' := by
  cases related with
  | none => cases held
  | some related =>
    cases held
    exact ⟨_, rfl, related⟩

theorem mapM_related {α β : Type} {R : β → β → Prop} {f f' : α → Except Error β}
    (each : ∀ item out, f item = .ok out → ∃ out', f' item = .ok out' ∧ R out out')
    {items : List α} {outs : List β} (made : items.mapM f = .ok outs) :
    ∃ outs', items.mapM f' = .ok outs' ∧ List.Forall₂ R outs outs' := by
  induction items generalizing outs with
  | nil =>
    cases made
    exact ⟨[], rfl, .nil⟩
  | cons item items ih =>
    rw [List.mapM_cons] at made
    obtain ⟨out, made1, rest1⟩ := bind_eq_ok made
    obtain ⟨outs, made2, rest2⟩ := bind_eq_ok rest1
    cases rest2
    obtain ⟨out', made1', related⟩ := each item out made1
    obtain ⟨outs', made2', relateds⟩ := ih made2
    exact ⟨out' :: outs', by rw [List.mapM_cons, made1', made2']; rfl, .cons related relateds⟩

theorem forall₂_zipIdx_map {α α' β : Type} {R : α → α' → Prop} {S : β → β → Prop} {f : α × Nat → β}
    {f' : α' × Nat → β} (each : ∀ item item' i, R item item' → S (f (item, i)) (f' (item', i)))
    {items : List α} {items' : List α'} (related : List.Forall₂ R items items') (start : Nat) :
    List.Forall₂ S ((items.zipIdx start).map f) ((items'.zipIdx start).map f') := by
  induction related generalizing start with
  | nil => exact .nil
  | cons head _ ih => exact .cons (each _ _ _ head) (ih (start + 1))

theorem forall₂_zip {α α' : Type} {R : α → α' → Prop} {S : α × α → α' × α' → Prop}
    (each : ∀ x x' y y', R x x' → R y y' → S (x, y) (x', y')) {xs ys : List α} {xs' ys' : List α'}
    (left : List.Forall₂ R xs xs') (right : List.Forall₂ R ys ys') :
    List.Forall₂ S (xs.zip ys) (xs'.zip ys') := by
  induction left generalizing ys ys' with
  | nil => exact .nil
  | cons first _ ih =>
    cases right with
    | nil => exact .nil
    | cons second right => exact .cons (each _ _ _ _ first second) (ih right)

variable {nodes1 nodes2 nodes1' nodes2' : List Id}

theorem nodeStep_related (related1 : List.Forall₂ ρ nodes1 nodes1')
    (related2 : List.Forall₂ ρ nodes2 nodes2') {pair : Option Nat × Option Nat} {step : Step}
    (planned : nodeStep nodes1 nodes2 pair = .ok step) :
    ∃ step', nodeStep nodes1' nodes2' pair = .ok step' ∧ step.Related ρ step' := by
  rcases pair with ⟨_ | i, _ | j⟩
  · obtain ⟨node1, held1, _⟩ := bind_eq_ok planned
    cases held1
  · obtain ⟨node2, held2, rest⟩ := bind_eq_ok planned
    obtain ⟨node2', held2', second⟩ := deref_related (getElem?_related related2 j) held2
    cases rest
    exact ⟨.added "" node2', by rw [nodeStep, held2']; rfl, .added second⟩
  · obtain ⟨node1, held1, rest⟩ := bind_eq_ok planned
    obtain ⟨node1', held1', first⟩ := deref_related (getElem?_related related1 i) held1
    cases rest
    exact ⟨.removed "" node1', by rw [nodeStep, held1']; rfl, .removed first⟩
  · obtain ⟨node1, held1, rest1⟩ := bind_eq_ok planned
    obtain ⟨node2, held2, rest2⟩ := bind_eq_ok rest1
    obtain ⟨node1', held1', first⟩ := deref_related (getElem?_related related1 i) held1
    obtain ⟨node2', held2', second⟩ := deref_related (getElem?_related related2 j) held2
    cases rest2
    refine ⟨.compare "" node1' node2', ?_, .compare first second⟩
    simp only [nodeStep, Option.bind_some, held1', held2']
    rfl

theorem nodeSteps_related (follow : KeysFollow graph graph' ρ σ)
    (strict : ∀ id id', σ id id' → ρ id id') (related1 : List.Forall₂ σ nodes1 nodes1')
    (related2 : List.Forall₂ σ nodes2 nodes2') {reordered : Bool} {steps : List Step}
    (planned : nodeSteps graph fuel nodes1 nodes2 reordered = .ok steps) :
    ∃ steps', nodeSteps graph' fuel nodes1' nodes2' reordered = .ok steps' ∧
      List.Forall₂ (Step.Related ρ) steps steps' := by
  obtain ⟨keys1, found1, rest1⟩ := bind_eq_ok planned
  obtain ⟨keys2, found2, rest2⟩ := bind_eq_ok rest1
  obtain ⟨pairs, arranged, made⟩ := bind_eq_ok rest2
  have found1' := follow.matchingKeys (Nat.le_refl fuel) related1 keys1 found1
  have found2' := follow.matchingKeys (Nat.le_refl fuel) related2 keys2 found2
  obtain ⟨steps', made', related⟩ := mapM_related
    (fun _ _ => nodeStep_related (related1.imp strict) (related2.imp strict)) made
  refine ⟨steps', ?_, related⟩
  simp only [nodeSteps, found1', found2', bind, Except.bind, arranged]
  exact made'

end Steps

section Nodes

theorem FunctionNode.plan_related {returned1 returned2 returned1' returned2' : Id}
    {parameters1 parameters2 parameters1' parameters2' : List Parameter}
    (first : ρ returned1 returned1') (second : ρ returned2 returned2')
    (related1 : List.Forall₂ (fun p p' => p'.name = p.name ∧ ρ p.typeId p'.typeId)
      parameters1 parameters1')
    (related2 : List.Forall₂ (fun p p' => p'.name = p.name ∧ ρ p.typeId p'.typeId)
      parameters2 parameters2') :
    ((⟨returned1, parameters1⟩ : FunctionNode).plan ⟨returned2, parameters2⟩).Related ρ
      ((⟨returned1', parameters1'⟩ : FunctionNode).plan ⟨returned2', parameters2'⟩) := by
  refine related_append (.cons (.compare first second) ?_) ?_
  · have zipped : List.Forall₂ (fun pair pair' : Parameter × Parameter =>
        ρ pair.1.typeId pair'.1.typeId ∧ ρ pair.2.typeId pair'.2.typeId)
        (parameters1.zip parameters2) (parameters1'.zip parameters2') :=
      forall₂_zip (fun _ _ _ _ first second => ⟨first.2, second.2⟩) related1 related2
    exact forall₂_zipIdx_map (fun _ _ _ held => .compare held.1 held.2) zipped 0
  · unfold unmatchedSteps
    rw [← related1.length_eq, ← related2.length_eq]
    split
    · exact forall₂_zipIdx_map (fun _ _ _ held => .added held.2) (List.forall₂_drop _ related2) _
    · exact forall₂_zipIdx_map (fun _ _ _ held => .removed held.2) (List.forall₂_drop _ related1) _

/-- The symbols have the same key, and the ids are related. -/
def SymbolRelated (ρ : Id → Id → Prop) (symbol symbol' : SymbolKey × Id) : Prop :=
  symbol'.1 = symbol.1 ∧ ρ symbol.2 symbol'.2

theorem Symbols.plan_related {symbols1 symbols2 symbols1' symbols2' : Symbols}
    (related1 : List.Forall₂ (SymbolRelated ρ) symbols1.symbols symbols1'.symbols)
    (related2 : List.Forall₂ (SymbolRelated ρ) symbols2.symbols symbols2'.symbols) :
    (symbols1.plan symbols2).Related ρ (symbols1'.plan symbols2') := by
  let both (item item' : Option (SymbolKey × Id) × Option (SymbolKey × Id)) : Prop :=
    Option.Rel (SymbolRelated ρ) item.1 item'.1 ∧ Option.Rel (SymbolRelated ρ) item.2 item'.2
  have swept : List.Forall₂ both (Sweep.sweep (·.1) (·.1) symbols1.symbols symbols2.symbols)
      (Sweep.sweep (·.1) (·.1) symbols1'.symbols symbols2'.symbols) :=
    Sweep.sweep_related (fun _ _ held => held.1) (fun _ _ held => held.1) related1 related2
  have removed : ∀ ⦃item item'⦄, both item item' →
      Option.Rel (SymbolRelated ρ) (removedSymbol item) (removedSymbol item') := by
    rintro ⟨_, _⟩ ⟨_, _⟩ ⟨first | _, second | _⟩
    · exact .none
    · exact .some first
    · exact .none
    · exact .none
  have added : ∀ ⦃item item'⦄, both item item' →
      Option.Rel (SymbolRelated ρ) (addedSymbol item) (addedSymbol item') := by
    rintro ⟨_, _⟩ ⟨_, _⟩ ⟨first | _, second | _⟩
    · exact .none
    · exact .none
    · exact .some second
    · exact .none
  have inBoth : ∀ ⦃item item'⦄, both item item' → Option.Rel (fun pair pair' =>
      SymbolRelated ρ pair.1 pair'.1 ∧ SymbolRelated ρ pair.2 pair'.2)
      (symbolsInBoth item) (symbolsInBoth item') := by
    rintro ⟨_, _⟩ ⟨_, _⟩ ⟨first | _, second | _⟩
    · exact .some ⟨first, second⟩
    · exact .none
    · exact .none
    · exact .none
  refine related_append (related_append ?_ ?_) ?_
  · exact List.rel_map (fun _ _ held => .removed held.2) (List.rel_filterMap removed swept)
  · exact List.rel_map (fun _ _ held => .added held.2) (List.rel_filterMap added swept)
  · exact List.rel_map (fun _ _ held => .compare held.1.2 held.2.2)
      (List.rel_filterMap inBoth swept)

theorem symbolTypeSteps_related {ignoreDiff : Bool} {type1 type2 type1' type2' : Option Id}
    (related1 : Option.Rel ρ type1 type1') (related2 : Option.Rel ρ type2 type2') :
    List.Forall₂ (Step.Related ρ) (symbolTypeSteps ignoreDiff type1 type2)
      (symbolTypeSteps ignoreDiff type1' type2') := by
  cases related1 with
  | none =>
    cases related2 with
    | none => exact .nil
    | some second =>
      cases ignoreDiff with
      | true => exact .nil
      | false => exact .cons (.added second) .nil
  | some first =>
    cases related2 with
    | none =>
      cases ignoreDiff with
      | true => exact .nil
      | false => exact .cons (.removed first) .nil
    | some second => exact .cons (.compare first second) .nil

theorem StructUnion.plan_related (follow : KeysFollow graph graph' ρ σ)
    (strict : ∀ id id', σ id id' → ρ id id') {kind1 kind2 : StructUnion.Kind} {name1 name2 : String}
    {definition1 definition2 definition1' definition2' : Option StructUnion.Definition}
    (related1 : Option.Rel (StructUnion.Definition.Related σ) definition1 definition1')
    (related2 : Option.Rel (StructUnion.Definition.Related σ) definition2 definition2')
    (planned : (⟨kind1, name1, definition1⟩ : StructUnion).plan graph options fuel
      ⟨kind2, name2, definition2⟩ = .ok plan) :
    ∃ plan', (⟨kind1, name1, definition1'⟩ : StructUnion).plan graph' options fuel
      ⟨kind2, name2, definition2'⟩ = .ok plan' ∧ plan.Related ρ plan' := by
  unfold StructUnion.plan at planned ⊢
  split at planned
  · rename_i incomparable
    cases planned
    rw [if_pos incomparable]
    exact ⟨_, rfl, .cons .incomparable .nil⟩
  · rename_i comparable
    rw [if_neg comparable]
    cases related1 with
    | none =>
      cases planned
      cases related2 with
      | none => exact ⟨_, rfl, related_same (within_statusChange _ _ _)⟩
      | some => exact ⟨_, rfl, related_same (within_statusChange _ _ _)⟩
    | some related1 =>
      cases related2 with
      | none =>
        cases planned
        exact ⟨_, rfl, related_same (within_statusChange _ _ _)⟩
      | some related2 =>
        obtain ⟨baseClasses, planned1, rest1⟩ := bind_eq_ok planned
        obtain ⟨methods, planned2, rest2⟩ := bind_eq_ok rest1
        obtain ⟨members, planned3, rest3⟩ := bind_eq_ok rest2
        cases rest3
        obtain ⟨baseClasses', planned1', relatedBases⟩ := nodeSteps_related follow strict
          related1.baseClasses related2.baseClasses planned1
        obtain ⟨methods', planned2', relatedMethods⟩ := nodeSteps_related follow strict
          related1.methods related2.methods planned2
        obtain ⟨members', planned3', relatedMembers⟩ := nodeSteps_related follow strict
          related1.members related2.members planned3
        simp only [planned1', planned2', planned3', bind, Except.bind, related1.bytesize,
          related2.bytesize]
        refine ⟨_, rfl, related_append (related_append (related_append ?_ relatedBases)
          relatedMethods) relatedMembers⟩
        exact related_change _ _ _

theorem Enumeration.plan_related {self other : Enumeration}
    (planned : self.plan options other = .ok plan) : plan.Related ρ plan := by
  obtain ⟨plan', planned', within⟩ : ∃ plan', self.plan options other = .ok plan' ∧
      ∀ step ∈ plan'.steps, step.Within (fun _ => False) fun _ => False :=
    Enumeration.plan_total self other
  cases planned.symm.trans planned'
  exact related_same within

/-- Where two nodes can be examined, related nodes can, in related steps. -/
theorem Node.Related.planned {self other self' other' : Node} (related1 : self.Related ρ σ self')
    (related2 : other.Related ρ σ other') (follow : KeysFollow graph graph' ρ σ)
    (strict : ∀ id id', σ id id' → ρ id id')
    (planned : self.plan graph options fuel other = .ok plan) :
    ∃ plan', self'.plan graph' options fuel other' = .ok plan' ∧ plan.Related ρ plan' := by
  unfold Node.plan at planned
  split at planned
  case h_4 | h_5 | h_16 => cases planned
  case h_11 =>
    cases related1 with
    | structUnion related1 =>
      cases related2 with
      | structUnion related2 =>
        exact StructUnion.plan_related follow strict related1 related2 planned
  case h_12 =>
    cases related1
    cases related2
    exact ⟨_, planned, Enumeration.plan_related planned⟩
  all_goals
    cases planned
    cases related1
    cases related2
    refine ⟨_, rfl, ?_⟩
  · exact .nil
  · exact .nil
  · rename_i child1 _ _ _ child2
    unfold PointerReference.plan
    split
    · exact .cons .incomparable .nil
    · exact related_compare child1 child2
  · refine related_append (related_append (related_change _ _ _) (related_change _ _ _)) ?_
    split
    · exact related_change _ _ _
    · exact .nil
  · rename_i child1 _ _ _ child2
    exact related_append (related_change _ _ _) (related_compare child1 child2)
  · rename_i child1 _ _ _ _ child2
    exact related_append (related_append (related_change _ _ _) (related_change _ _ _))
      (related_compare (strict _ _ child1) (strict _ _ child2))
  · rename_i child1 _ _ _ _ _ _ child2
    exact related_append (related_append (related_change _ _ _) (related_change _ _ _))
      (related_compare child1 child2)
  · rename_i child1 _ _ _ _ _ _ child2
    refine related_append (related_append (related_change _ _ _) ?_) (related_compare child1 child2)
    exact related_same (within_optionalChange _ _ _)
  · rename_i child1 parameters1 _ _ _ _ child2 parameters2
    exact FunctionNode.plan_related child1 child2 parameters1 parameters2
  · rename_i type1 _ type2
    refine related_append ?_ (symbolTypeSteps_related type1 type2)
    apply related_same
    simp only [List.forall_mem_append]
    exact ⟨⟨⟨⟨⟨⟨within_change _ _ _, within_versionChange _ _⟩, within_change _ _ _⟩,
      within_change _ _ _⟩, within_change _ _ _⟩, within_change _ _ _⟩, within_optionalChange _ _ _⟩
  · rename_i symbols1 _ symbols2
    exact Symbols.plan_related symbols1 symbols2

end Nodes

section Settled

/-- A node that neither qualifiers nor typedefs lead on from. -/
structure Graph.Settled (graph : Graph) (id : Id) (node : Node) : Prop where
  got : graph.get id = .ok node
  notQualified : node.kind ≠ .qualified
  notTypedef : node.kind ≠ .typedef

variable {id id1 id2 last : Id} {qualifiers : Qualifiers} {typedefs : List String}
  {type1 type2 : Node}

theorem settled_of_walks (found : Unqualified graph id last qualifiers)
    (walked : Resolved graph last last typedefs) : ∃ node, graph.Settled last node := by
  obtain ⟨fuel, found⟩ := found
  obtain ⟨fuel', walked⟩ := walked
  obtain ⟨node, got, notQualified⟩ := resolveQualifiers_end found
  obtain ⟨node', got', notTypedef⟩ := resolveTypedefs_end walked
  cases got.symm.trans got'
  exact ⟨node, got, notQualified, notTypedef⟩

theorem Graph.Settled.unqualified {node : Node} (settled : graph.Settled id node) :
    Unqualified graph id id ∅ := by
  refine ⟨1, ?_⟩
  unfold resolveQualifiers
  rw [settled.got]
  have other := settled.notQualified
  cases node <;> first | rfl | exact absurd rfl other

theorem Graph.Settled.resolved {node : Node} (settled : graph.Settled id node) :
    Resolved graph id id [] :=
  .of_kind settled.got settled.notTypedef

/-- Settled nodes are examined themselves. -/
theorem plans_iff_of_settled (settled1 : graph.Settled id1 type1)
    (settled2 : graph.Settled id2 type2) :
    Plans graph options (some id1, some id2) plan ↔
      type1.kind ≠ type2.kind ∧ plan = { steps := [.incomparable] } ∨
        type1.kind = type2.kind ∧ type1.Plans graph options type2 plan := by
  constructor
  · intro plans
    cases plans_iff.mp plans with
    | qualified found1 found2 some_ =>
      have none1 := (found1.unique settled1.unqualified).2
      have none2 := (found2.unique settled2.unqualified).2
      exact absurd some_ (by simp [none1, none2])
    | typedefs found1 found2 walked1 walked2 moved =>
      obtain ⟨rfl, _⟩ := found1.unique settled1.unqualified
      obtain ⟨rfl, _⟩ := found2.unique settled2.unqualified
      exact absurd moved (by simp [walked1.unique settled1.resolved,
        walked2.unique settled2.resolved])
    | kinds found1 found2 _ _ got1 got2 differ =>
      obtain ⟨rfl, _⟩ := found1.unique settled1.unqualified
      obtain ⟨rfl, _⟩ := found2.unique settled2.unqualified
      cases got1.symm.trans settled1.got
      cases got2.symm.trans settled2.got
      exact .inl ⟨differ, rfl⟩
    | nodes found1 found2 _ _ got1 got2 same planned =>
      obtain ⟨rfl, _⟩ := found1.unique settled1.unqualified
      obtain ⟨rfl, _⟩ := found2.unique settled2.unqualified
      cases got1.symm.trans settled1.got
      cases got2.symm.trans settled2.got
      exact .inr ⟨same, planned⟩
  · rintro (⟨differ, rfl⟩ | ⟨same, planned⟩)
    · exact plans_iff.mpr (.kinds settled1.unqualified settled2.unqualified settled1.resolved
        settled2.resolved settled1.got settled2.got differ)
    · exact plans_iff.mpr (.nodes settled1.unqualified settled2.unqualified settled1.resolved
        settled2.resolved settled1.got settled2.got same planned)

end Settled

/-- Nodes of one graph and nodes of the other that stand for them: where walks end on
both sides they agree, and settled nodes are related. -/
structure Follows (graph graph' : Graph) (ρ σ : Id → Id → Prop) : Prop where
  qualifiers : ∀ {id id' last last' qualifiers qualifiers'}, ρ id id' →
    Unqualified graph id last qualifiers → Unqualified graph' id' last' qualifiers' →
    qualifiers' = qualifiers ∧ ρ last last'
  typedefs : ∀ {id id' last last' typedefs typedefs'}, ρ id id' →
    Resolved graph id last typedefs → Resolved graph' id' last' typedefs' → ρ last last'
  nodes : ∀ {id id' node node'}, ρ id id' → graph.Settled id node → graph'.Settled id' node' →
    node.Related ρ σ node'
  keys : KeysFollow graph graph' ρ σ
  strict : ∀ id id', σ id id' → ρ id id'

/-- Walks that end in one graph end in the other. -/
structure WalksEnd (graph graph' : Graph) (ρ : Id → Id → Prop) : Prop where
  qualifiers : ∀ {id id' last qualifiers}, ρ id id' → Unqualified graph id last qualifiers →
    ∃ last' qualifiers', Unqualified graph' id' last' qualifiers'
  typedefs : ∀ {id id' last typedefs}, ρ id id' → Resolved graph id last typedefs →
    ∃ last' typedefs', Resolved graph' id' last' typedefs'

namespace Follows

variable {ok : Bool → Prop} {node1 node2 node1' node2' last1' last2' : Id} {verdict verdict' : Bool}

theorem flip (follows : Follows graph graph' ρ σ)
    (keys' : KeysFollow graph' graph (Flipped ρ) (Flipped σ)) :
    Follows graph' graph (Flipped ρ) (Flipped σ) where
  qualifiers related found found' := by
    obtain ⟨same, held⟩ := follows.qualifiers related found' found
    exact ⟨same.symm, held⟩
  typedefs related walked walked' := follows.typedefs related walked' walked
  nodes related settled settled' := (follows.nodes related settled' settled).flip
  keys := keys'
  strict id id' := follows.strict id' id

/-- Where an accepted comparison is followed to settled nodes, it leads to an accepted
comparison of the settled nodes that they stand for. -/
theorem settled (follows : Follows graph graph' ρ σ)
    (accepted : Accepted graph options ok (some node1, some node2)) (related1 : ρ node1 node1')
    (related2 : ρ node2 node2') (found1' : Unqualified graph' node1' last1' ∅)
    (found2' : Unqualified graph' node2' last2' ∅) {type1' type2' : Node}
    (settled1' : graph'.Settled last1' type1') (settled2' : graph'.Settled last2' type2') :
    ∃ last1 last2 type1 type2, Accepted graph options ok (some last1, some last2) ∧
      graph.Settled last1 type1 ∧ graph.Settled last2 type2 ∧ type1.Related ρ σ type1' ∧
      type2.Related ρ σ type2' := by
  obtain ⟨_, plans, _⟩ := accepted.step
  obtain ⟨under1, under2, _, _, found1, found2⟩ := plans.unqualified
  obtain ⟨rfl, related1⟩ := follows.qualifiers related1 found1 found1'
  obtain ⟨rfl, related2⟩ := follows.qualifiers related2 found2 found2'
  obtain ⟨resolved1, resolved2, _, _, walked1, walked2⟩ := plans.resolved found1 found2
  have related1 := follows.typedefs related1 walked1 settled1'.resolved
  have related2 := follows.typedefs related2 walked2 settled2'.resolved
  -- typedefs may lead to qualifiers that arrays and functions drop
  have accepted := accepted.resolved found1 found2 walked1 walked2
  obtain ⟨_, plans, _⟩ := accepted.step
  obtain ⟨last1, last2, _, _, found1, found2⟩ := plans.unqualified
  obtain ⟨rfl, related1⟩ := follows.qualifiers related1 found1 settled1'.unqualified
  obtain ⟨rfl, related2⟩ := follows.qualifiers related2 found2 settled2'.unqualified
  have ended1 := found1.resolved walked1.ends
  have ended2 := found2.resolved walked2.ends
  obtain ⟨type1, settled1⟩ := settled_of_walks found1 ended1
  obtain ⟨type2, settled2⟩ := settled_of_walks found2 ended2
  exact ⟨last1, last2, type1, type2, accepted.resolved found1 found2 ended1 ended2, settled1,
    settled2, follows.nodes related1 settled1 settled1', follows.nodes related2 settled2 settled2'⟩

theorem step_of_related (acceptable : ok plan.clean)
    (children : ∀ child ∈ plan.children, Accepted graph options ok child)
    (related : plan.Related ρ plan') :
    ok plan'.clean ∧ ∀ child1' child2', (some child1', some child2') ∈ plan'.children →
      ∃ child1 child2, ρ child1 child1' ∧ ρ child2 child2' ∧
        Accepted graph options ok (some child1, some child2) := by
  refine ⟨related.clean ▸ acceptable, fun child1' child2' present => ?_⟩
  obtain ⟨child1, child2, among, related1, related2⟩ := related.child present
  exact ⟨child1, child2, related1, related2, children _ among⟩

/-- One step of an accepted comparison, taken in the other graph. -/
theorem step (follows : Follows graph graph' ρ σ) (acceptable : ok true)
    (accepted : Accepted graph options ok (some node1, some node2)) (related1 : ρ node1 node1')
    (related2 : ρ node2 node2') (plans' : Plans graph' options (some node1', some node2') plan') :
    ok plan'.clean ∧ ∀ child1' child2', (some child1', some child2') ∈ plan'.children →
      ∃ child1 child2, ρ child1 child1' ∧ ρ child2 child2' ∧
        Accepted graph options ok (some child1, some child2) := by
  obtain ⟨plan, plans, isOk, children⟩ := accepted.step
  obtain ⟨last1, last2, qualifiers1, qualifiers2, found1, found2⟩ := plans.unqualified
  cases plans_iff.mp plans' with
  | qualified found1' found2' some_ =>
    obtain ⟨rfl, under1⟩ := follows.qualifiers related1 found1 found1'
    obtain ⟨rfl, under2⟩ := follows.qualifiers related2 found2 found2'
    cases plans.unique (plans_iff.mpr (.qualified found1 found2 some_))
    refine step_of_related isOk children (related_append ?_ (related_compare under1 under2))
    exact related_same (within_qualifierSteps _ _)
  | typedefs found1' found2' walked1' walked2' moved =>
    obtain ⟨rfl, under1⟩ := follows.qualifiers related1 found1 found1'
    obtain ⟨rfl, under2⟩ := follows.qualifiers related2 found2 found2'
    obtain ⟨resolved1, resolved2, _, _, walked1, walked2⟩ := plans.resolved found1 found2
    refine ⟨acceptable, fun child1' child2' present => ?_⟩
    cases List.mem_singleton.mp present
    exact ⟨resolved1, resolved2, follows.typedefs under1 walked1 walked1',
      follows.typedefs under2 walked2 walked2', accepted.resolved found1 found2 walked1 walked2⟩
  | kinds found1' found2' walked1' walked2' got1' got2' differ =>
    obtain ⟨type1', settled1'⟩ := settled_of_walks found1' walked1'
    obtain ⟨type2', settled2'⟩ := settled_of_walks found2' walked2'
    cases got1'.symm.trans settled1'.got
    cases got2'.symm.trans settled2'.got
    obtain ⟨_, _, type1, type2, accepted, settled1, settled2, same1, same2⟩ :=
      follows.settled accepted related1 related2 found1' found2' settled1' settled2'
    obtain ⟨plan, plans, isOk, children⟩ := accepted.step
    rw [same1.kind, same2.kind] at differ
    rcases (plans_iff_of_settled settled1 settled2).mp plans with ⟨_, rfl⟩ | ⟨same, _⟩
    · exact step_of_related isOk children (.cons .incomparable .nil)
    · exact absurd same differ
  | nodes found1' found2' walked1' walked2' got1' got2' same planned' =>
    obtain ⟨type1', settled1'⟩ := settled_of_walks found1' walked1'
    obtain ⟨type2', settled2'⟩ := settled_of_walks found2' walked2'
    cases got1'.symm.trans settled1'.got
    cases got2'.symm.trans settled2'.got
    obtain ⟨_, _, type1, type2, accepted, settled1, settled2, same1, same2⟩ :=
      follows.settled accepted related1 related2 found1' found2' settled1' settled2'
    obtain ⟨plan, plans, isOk, children⟩ := accepted.step
    rw [same1.kind, same2.kind] at same
    rcases (plans_iff_of_settled settled1 settled2).mp plans with ⟨differ, _⟩ | ⟨_, planned⟩
    · exact absurd same differ
    · obtain ⟨fuel, planned⟩ := planned
      obtain ⟨fuel', planned'⟩ := planned'
      obtain ⟨plan'', planned'', related⟩ := same1.planned same2 follows.keys follows.strict planned
      cases agree_of_yields (fun _ _ enough => Node.plan_yields enough _ _) planned' planned''
      exact step_of_related isOk children related

/-- Where walks end, what can be examined in one graph can be in the other. -/
theorem plans (follows : Follows graph graph' ρ σ) (ends : WalksEnd graph graph' ρ)
    (explorable : Explorable graph options (some node1, some node2)) (related1 : ρ node1 node1')
    (related2 : ρ node2 node2') :
    ∃ plan', Plans graph' options (some node1', some node2') plan' := by
  obtain ⟨plan, plans, _⟩ := explorable.step
  obtain ⟨last1, last2, _, _, found1, found2⟩ := plans.unqualified
  obtain ⟨last1', qualifiers1, found1'⟩ := ends.qualifiers related1 found1
  obtain ⟨last2', qualifiers2, found2'⟩ := ends.qualifiers related2 found2
  obtain ⟨rfl, under1⟩ := follows.qualifiers related1 found1 found1'
  obtain ⟨rfl, under2⟩ := follows.qualifiers related2 found2 found2'
  by_cases some_ : qualifiers1 ≠ ∅ ∨ qualifiers2 ≠ ∅
  · exact ⟨_, plans_iff.mpr (.qualified found1' found2' some_)⟩
  obtain ⟨rfl, rfl⟩ : qualifiers1 = ∅ ∧ qualifiers2 = ∅ := by simpa [not_or] using some_
  obtain ⟨resolved1, resolved2, _, _, walked1, walked2⟩ := plans.resolved found1 found2
  obtain ⟨resolved1', _, walked1'⟩ := ends.typedefs under1 walked1
  obtain ⟨resolved2', _, walked2'⟩ := ends.typedefs under2 walked2
  by_cases moved : last1' ≠ resolved1' ∨ last2' ≠ resolved2'
  · exact ⟨_, plans_iff.mpr (.typedefs found1' found2' walked1' walked2' moved)⟩
  obtain ⟨rfl, rfl⟩ : last1' = resolved1' ∧ last2' = resolved2' := by simpa [not_or] using moved
  obtain ⟨type1', settled1'⟩ := settled_of_walks found1' walked1'
  obtain ⟨type2', settled2'⟩ := settled_of_walks found2' walked2'
  obtain ⟨_, _, type1, type2, explorable, settled1, settled2, same1, same2⟩ :=
    follows.settled explorable related1 related2 found1' found2' settled1' settled2'
  by_cases same : type1'.kind = type2'.kind
  · obtain ⟨plan, plans, _⟩ := explorable.step
    rcases (plans_iff_of_settled settled1 settled2).mp plans with ⟨differ, _⟩ | ⟨_, planned⟩
    · rw [same1.kind, same2.kind] at same
      exact absurd same differ
    · obtain ⟨fuel, planned⟩ := planned
      obtain ⟨plan', planned', _⟩ := same1.planned same2 follows.keys follows.strict planned
      exact ⟨plan', plans_iff.mpr (.nodes found1' found2' walked1' walked2' settled1'.got
        settled2'.got same ⟨fuel, planned'⟩)⟩
  · exact ⟨_, plans_iff.mpr (.kinds found1' found2' walked1' walked2' settled1'.got settled2'.got
      same)⟩

theorem accepted_of_explorable (follows : Follows graph graph' ρ σ) (acceptable : ok true)
    (related1 : ρ node1 node1') (related2 : ρ node2 node2')
    (explorable' : Explorable graph' options (some node1', some node2'))
    (accepted : Accepted graph options ok (some node1, some node2)) :
    Accepted graph' options ok (some node1', some node2') := by
  refine Accepted.coinduct (R := fun c' => Explorable graph' options c' ∧
    ∃ node1 node2 node1' node2', c' = (some node1', some node2') ∧ ρ node1 node1' ∧
      ρ node2 node2' ∧ Accepted graph options ok (some node1, some node2)) ?_
    ⟨explorable', node1, node2, node1', node2', rfl, related1, related2, accepted⟩
  rintro _ ⟨explorable', node1, node2, node1', node2', rfl, related1, related2, accepted⟩
  obtain ⟨plan', plans', _, children'⟩ := explorable'.step
  obtain ⟨isOk, children⟩ := follows.step acceptable accepted related1 related2 plans'
  refine ⟨plan', plans', isOk, fun child present => ⟨children' child present, ?_⟩⟩
  obtain ⟨child1', child2', _, rfl⟩ := mem_children.mp present
  obtain ⟨child1, child2, held1, held2, accepted⟩ := children child1' child2' present
  exact ⟨child1, child2, child1', child2', rfl, held1, held2, accepted⟩

theorem explorable (follows : Follows graph graph' ρ σ) (ends : WalksEnd graph graph' ρ)
    (related1 : ρ node1 node1') (related2 : ρ node2 node2')
    (explorable : Explorable graph options (some node1, some node2)) :
    Explorable graph' options (some node1', some node2') := by
  refine Accepted.coinduct (R := fun c' => ∃ node1 node2 node1' node2',
    c' = (some node1', some node2') ∧ ρ node1 node1' ∧ ρ node2 node2' ∧
      Explorable graph options (some node1, some node2)) ?_
    ⟨node1, node2, node1', node2', rfl, related1, related2, explorable⟩
  rintro _ ⟨node1, node2, node1', node2', rfl, related1, related2, explorable⟩
  obtain ⟨plan', plans'⟩ := follows.plans ends explorable related1 related2
  obtain ⟨_, children⟩ := follows.step trivial explorable related1 related2 plans'
  refine ⟨plan', plans', trivial, fun child present => ?_⟩
  obtain ⟨child1', child2', _, rfl⟩ := mem_children.mp present
  obtain ⟨child1, child2, held1, held2, explorable⟩ := children child1' child2' present
  exact ⟨child1, child2, child1', child2', rfl, held1, held2, explorable⟩

theorem accepted (follows : Follows graph graph' ρ σ) (ends : WalksEnd graph graph' ρ)
    (acceptable : ok true) (related1 : ρ node1 node1') (related2 : ρ node2 node2')
    (accepted : Accepted graph options ok (some node1, some node2)) :
    Accepted graph' options ok (some node1', some node2') :=
  follows.accepted_of_explorable acceptable related1 related2
    (follows.explorable ends related1 related2 (accepted.imp fun _ _ => trivial)) accepted

/-- Comparisons that return in both graphs find the same. -/
theorem finds_same (follows : Follows graph graph' ρ σ)
    (follows' : Follows graph' graph (Flipped ρ) (Flipped σ)) (related1 : ρ node1 node1')
    (related2 : ρ node2 node2') (found : Finds graph options node1 node2 verdict)
    (found' : Finds graph' options node1' node2' verdict') : verdict' = verdict := by
  obtain ⟨explorable, decides⟩ := finds_iff.mp found
  obtain ⟨explorable', decides'⟩ := finds_iff.mp found'
  rw [Bool.eq_iff_iff, decides, decides']
  have clean : Accepted graph options (· = true) (some node1, some node2) ↔
      Accepted graph' options (· = true) (some node1', some node2') :=
    ⟨follows.accepted_of_explorable rfl related1 related2 explorable',
      follows'.accepted_of_explorable rfl related1 related2 explorable⟩
  simp only [accepted_clean_iff, explorable, explorable', true_and] at clean
  exact clean.symm

/-- Where walks end in one graph when they do in the other, comparisons return and find
the same. -/
theorem finds (follows : Follows graph graph' ρ σ)
    (follows' : Follows graph' graph (Flipped ρ) (Flipped σ)) (ends : WalksEnd graph graph' ρ)
    (ends' : WalksEnd graph' graph (Flipped ρ)) (related1 : ρ node1 node1')
    (related2 : ρ node2 node2') :
    Finds graph options node1 node2 verdict ↔ Finds graph' options node1' node2' verdict :=
  finds_congr fun _ acceptable =>
    ⟨follows.accepted ends acceptable related1 related2,
      follows'.accepted ends' acceptable related1 related2⟩

end Follows

end Stg
