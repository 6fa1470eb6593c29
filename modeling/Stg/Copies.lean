import Stg.Related

set_option autoImplicit false

/- Comparing a graph with a copy of itself. -/
namespace Stg

open Relation (ReflTransGen)

section Rename

variable (f : Id → Id)

def StructUnion.Definition.rename (self : StructUnion.Definition) : StructUnion.Definition :=
  { self with
    baseClasses := self.baseClasses.map f
    methods := self.methods.map f
    members := self.members.map f }

def Symbols.rename (self : Symbols) : Symbols where
  symbols := self.symbols.map fun symbol => (symbol.1, f symbol.2)
  ascending := by
    rw [List.map_map]
    exact self.ascending

/-- The node with other references and the same attributes. -/
def Node.rename : Node → Node
  | .void => .void
  | .variadic => .variadic
  | .pointerReference node => .pointerReference { node with pointeeTypeId := f node.pointeeTypeId }
  | .typedef node => .typedef { node with referredTypeId := f node.referredTypeId }
  | .qualified node => .qualified { node with qualifiedTypeId := f node.qualifiedTypeId }
  | .integer node => .integer node
  | .array node => .array { node with elementTypeId := f node.elementTypeId }
  | .baseClass node => .baseClass { node with typeId := f node.typeId }
  | .member node => .member { node with typeId := f node.typeId }
  | .method node => .method { node with typeId := f node.typeId }
  | .structUnion node =>
    .structUnion { node with definition := node.definition.map (·.rename f) }
  | .enumeration node => .enumeration node
  | .function node => .function {
      returnTypeId := f node.returnTypeId
      parameters := node.parameters.map fun p => { p with typeId := f p.typeId } }
  | .elfSymbol node => .elfSymbol { node with typeId := node.typeId.map f }
  | .symbols node => .symbols (node.rename f)

end Rename

/-- What can be reached from the first root is copied, node by node, by `f`, which
takes the first root to the second. (That `f` is injective is not needed.) -/
structure Graph.Copies (graph : Graph) (root1 root2 : Id) (f : Id → Id) : Prop where
  root : f root1 = root2
  nodes : ∀ id node, ReflTransGen graph.Refers root1 id → graph.get id = .ok node →
    graph.get (f id) = .ok (node.rename f)

variable {graph : Graph} {options : CompareOptions} {root1 root2 : Id} {f : Id → Id}
  {ρ : Id → Id → Prop} {plan : Plan} {fuel : Nat}

theorem forall₂_map {α : Type} {R : α → α → Prop} {g : α → α} {items : List α}
    (each : ∀ item ∈ items, R item (g item)) : List.Forall₂ R items (items.map g) := by
  rw [List.forall₂_map_right_iff]
  exact List.forall₂_same.mpr each

theorem Node.related_rename {node : Node} (each : ∀ id ∈ node.references, ρ id (f id)) :
    node.Related ρ ρ (node.rename f) := by
  cases node with
  | void => exact .void
  | variadic => exact .variadic
  | integer => exact .integer
  | enumeration => exact .enumeration
  | pointerReference => exact .pointerReference (each _ (by simp [Node.references]))
  | typedef => exact .typedef (each _ (by simp [Node.references]))
  | qualified => exact .qualified (each _ (by simp [Node.references]))
  | array => exact .array (each _ (by simp [Node.references]))
  | baseClass => exact .baseClass (each _ (by simp [Node.references]))
  | member node =>
    have child : ρ node.typeId (f node.typeId) := each _ (by simp [Node.references])
    exact .member (fun _ => child) child
  | method => exact .method (each _ (by simp [Node.references]))
  | structUnion node =>
    apply Node.Related.structUnion
    cases held : node.definition with
    | none => exact .none
    | some definition =>
      have lists : ∀ id, id ∈ definition.baseClasses ∨ id ∈ definition.methods ∨
          id ∈ definition.members → ρ id (f id) := by
        intro id present
        apply each
        simpa [Node.references, held] using present
      exact .some ⟨rfl, forall₂_map fun id present => lists id (.inl present),
        forall₂_map fun id present => lists id (.inr (.inl present)),
        forall₂_map fun id present => lists id (.inr (.inr present))⟩
  | function node =>
    refine .function (each _ (by simp [Node.references])) (forall₂_map fun p present => ⟨rfl, ?_⟩)
    apply each
    simp only [Node.references, List.mem_cons, List.mem_map]
    exact .inr ⟨p, present, rfl⟩
  | elfSymbol node =>
    apply Node.Related.elfSymbol
    cases held : node.typeId with
    | none => exact .none
    | some id => exact .some (each _ (by simp [Node.references, held]))
  | symbols node =>
    refine .symbols (forall₂_map fun symbol present => ⟨rfl, ?_⟩)
    apply each
    simp only [Node.references, List.mem_map]
    exact ⟨symbol, present, rfl⟩

/-- A reachable node and its copy. -/
def Graph.Copied (graph : Graph) (root1 : Id) (f : Id → Id) (id id' : Id) : Prop :=
  ReflTransGen graph.Refers root1 id ∧ id' = f id

namespace Graph.Copies

variable {id last : Id} {qualifiers qualifiers' : Qualifiers} {typedefs typedefs' : List String}

theorem related {node : Node} (reach : ReflTransGen graph.Refers root1 id)
    (got : graph.get id = .ok node) :
    node.Related (graph.Copied root1 f) (graph.Copied root1 f) (node.rename f) :=
  Node.related_rename fun _ present => ⟨reach.tail ⟨node, got, present⟩, rfl⟩

theorem keysFollow (copies : graph.Copies root1 root2 f) :
    KeysFollow graph graph (graph.Copied root1 f) (graph.Copied root1 f) := by
  rintro id _ ⟨reach, rfl⟩ node got
  exact ⟨node.rename f, copies.nodes id node reach got, .inl (related reach got)⟩

theorem resolveQualifiers (copies : graph.Copies root1 root2 f)
    (reach : ReflTransGen graph.Refers root1 id)
    (found : resolveQualifiers graph fuel id qualifiers = .ok (last, qualifiers')) :
    ReflTransGen graph.Refers root1 last ∧
      Stg.resolveQualifiers graph fuel (f id) qualifiers = .ok (f last, qualifiers') := by
  induction fuel generalizing id qualifiers with
  | zero => cases found
  | succ fuel ih =>
    obtain ⟨node, got, rest⟩ := bind_eq_ok found
    rw [Stg.resolveQualifiers, copies.nodes id node reach got]
    cases node with
    | qualified node =>
      have next : graph.Refers id node.qualifiedTypeId := ⟨_, got, by simp [Node.references]⟩
      exact ih (reach.tail next) rest
    | _ =>
      cases rest
      exact ⟨reach, rfl⟩

theorem resolveTypedefs (copies : graph.Copies root1 root2 f)
    (reach : ReflTransGen graph.Refers root1 id)
    (found : resolveTypedefs graph fuel id typedefs = .ok (last, typedefs')) :
    ReflTransGen graph.Refers root1 last ∧
      Stg.resolveTypedefs graph fuel (f id) typedefs = .ok (f last, typedefs') := by
  induction fuel generalizing id typedefs with
  | zero => cases found
  | succ fuel ih =>
    obtain ⟨node, got, rest⟩ := bind_eq_ok found
    rw [Stg.resolveTypedefs, copies.nodes id node reach got]
    cases node with
    | typedef node =>
      have next : graph.Refers id node.referredTypeId := ⟨_, got, by simp [Node.references]⟩
      exact ih (reach.tail next) rest
    | _ =>
      cases rest
      exact ⟨reach, rfl⟩

theorem unqualified (copies : graph.Copies root1 root2 f)
    (reach : ReflTransGen graph.Refers root1 id) (found : Unqualified graph id last qualifiers) :
    ReflTransGen graph.Refers root1 last ∧ Unqualified graph (f id) (f last) qualifiers := by
  obtain ⟨fuel, found⟩ := found
  obtain ⟨reach', found'⟩ := copies.resolveQualifiers reach found
  exact ⟨reach', fuel, found'⟩

theorem resolved (copies : graph.Copies root1 root2 f)
    (reach : ReflTransGen graph.Refers root1 id) (walked : Resolved graph id last typedefs) :
    ReflTransGen graph.Refers root1 last ∧ Resolved graph (f id) (f last) typedefs := by
  obtain ⟨fuel, walked⟩ := walked
  obtain ⟨reach', walked'⟩ := copies.resolveTypedefs reach walked
  exact ⟨reach', fuel, walked'⟩

/-- Comparing a node with its copy finds nothing, and goes on to nodes and their copies. -/
theorem hold (copies : graph.Copies root1 root2 f) (reach : ReflTransGen graph.Refers root1 id)
    (plans : Plans graph options (some id, some (f id)) plan) :
    Hold (graph.Copied root1 f) plan.steps := by
  cases plans_iff.mp plans with
  | qualified found1 found2 _ =>
    obtain ⟨reach', found'⟩ := copies.unqualified reach found1
    obtain ⟨rfl, rfl⟩ := found2.unique found'
    simp [Step.Holds, Copied, reach']
  | typedefs found1 found2 walked1 walked2 _ =>
    obtain ⟨reach', found'⟩ := copies.unqualified reach found1
    obtain ⟨rfl, _⟩ := found2.unique found'
    obtain ⟨reach'', walked'⟩ := copies.resolved reach' walked1
    obtain ⟨rfl, _⟩ := walked2.unique walked'
    simp [Step.Holds, Copied, reach'']
  | kinds found1 found2 _ _ got1 got2 differ =>
    obtain ⟨reach', found'⟩ := copies.unqualified reach found1
    obtain ⟨rfl, _⟩ := found2.unique found'
    cases got2.symm.trans (copies.nodes _ _ reach' got1)
    exact absurd (related reach' got1).kind.symm differ
  | nodes found1 found2 _ _ got1 got2 _ planned =>
    obtain ⟨reach', found'⟩ := copies.unqualified reach found1
    obtain ⟨rfl, _⟩ := found2.unique found'
    cases got2.symm.trans (copies.nodes _ _ reach' got1)
    obtain ⟨fuel, planned⟩ := planned
    exact (Node.matches_of_plan planned).mpr
      ((related reach' got1).matches_ copies.keysFollow (fun _ _ held => held) planned)

theorem reachable (copies : graph.Copies root1 root2 f) {c : Comparison}
    (path : ReflTransGen (ChildEdge graph options) (some root1, some root2) c) :
    ∃ id, ReflTransGen graph.Refers root1 id ∧ c = (some id, some (f id)) := by
  induction path with
  | refl => exact ⟨root1, .refl, by rw [copies.root]⟩
  | tail _ edge ih =>
    obtain ⟨id, reach, rfl⟩ := ih
    obtain ⟨plan, plans, present⟩ := childEdge_iff.mp edge
    obtain ⟨child1, child2, _, rfl⟩ := mem_children.mp present
    obtain ⟨reach', rfl⟩ := (hold_iff.mp (copies.hold reach plans)).2 _ _ present
    exact ⟨child1, reach', rfl⟩

/-- What is compared with its copy is found equal, and nothing is recorded. -/
theorem found_equal {answer : Answer} {s : State} (copies : graph.Copies root1 root2 f)
    (ran : runCompare graph options fuel {} root1 root2 = .ok (answer, s)) :
    answer = (true, none) ∧ s.outcomes = ∅ := by
  obtain ⟨inv, idle, verdict, known, rfl⟩ := runCompare_fresh ran
  have clean : ∀ c plan, s.known.lookup c ≠ none → Plans graph options c plan →
      Hold (graph.Copied root1 f) plan.steps := by
    intro c plan known plans
    obtain ⟨id, reach, rfl⟩ := copies.reachable ((known_iff_reachable ran).mp known)
    exact copies.hold reach plans
  have equal : ∀ c verdict, s.known.lookup c = some verdict → verdict = true := by
    intro c verdict known
    refine (inv.verdict_iff known).mpr fun d path => ?_
    have known' := inv.known_reachable (by simp [known]) path
    obtain ⟨plan, plans⟩ := inv.has_plan known'
    rw [plans.localDifference, (hold_iff.mp (clean d plan known' plans)).1]
    exact Bool.noConfusion
  obtain rfl := equal _ _ known
  refine ⟨rfl, AList.eq_empty_of_lookup fun c => ?_⟩
  by_contra present
  rcases (inv.outcomes_keys idle).mp present with unequal |
    ⟨d, plan, known', plans, step, among, sided⟩
  · cases equal c false unequal
  · have holds := clean d plan known' plans step among
    cases step <;> first | exact holds.elim | cases sided

end Graph.Copies

/-- Comparing a graph with a copy of itself finds nothing and records nothing. -/
theorem compare_copies {answer : Answer} {s : State} (copies : graph.Copies root1 root2 f)
    (ran : runCompare graph options fuel {} root1 root2 = .ok (answer, s)) :
    answer = (true, none) ∧ s.outcomes = ∅ := copies.found_equal ran

/-- The second struct of `twoLists` is a copy of the first when their sizes agree. -/
theorem twoLists_copies : (twoLists 8).Copies ⟨0⟩ ⟨3⟩ fun id => ⟨id.ix + 3⟩ where
  root := rfl
  nodes := by
    have first : ∀ id, ReflTransGen (twoLists 8).Refers ⟨0⟩ id → id = ⟨0⟩ ∨ id = ⟨1⟩ ∨
        id = ⟨2⟩ := by
      intro id reach
      induction reach with
      | refl => exact .inl rfl
      | tail _ refers ih =>
        obtain ⟨node, got, present⟩ := refers
        rcases ih with rfl | rfl | rfl
        all_goals
          cases got
          simp only [Node.references, List.append_nil, List.nil_append, List.mem_singleton]
            at present
          simp [present]
    intro id node reach got
    rcases first id reach with rfl | rfl | rfl
    all_goals
      cases got
      rfl

theorem compare_copies_lists : ∃ answer s,
    runCompare (twoLists 8) {} 6 {} ⟨0⟩ ⟨3⟩ = .ok (answer, s) ∧
      answer = (true, none) ∧ s.outcomes = ∅ := by
  obtain ⟨answer, s, ran⟩ : ∃ answer s,
      runCompare (twoLists 8) {} 6 {} ⟨0⟩ ⟨3⟩ = .ok (answer, s) := ⟨_, _, rfl⟩
  exact ⟨answer, s, ran, compare_copies twoLists_copies ran⟩

end Stg
