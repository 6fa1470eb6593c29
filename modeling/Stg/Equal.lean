import Stg.Matches

set_option autoImplicit false

/- Equality of nodes as the comparison finds it: the greatest relation that one step
of examination preserves. -/
namespace Stg

variable {graph : Graph} {options : CompareOptions} {S : Id → Id → Prop} {plan : Plan}
  {node1 node2 : Id}

/-- One step of equality; `S` is to relate what the examination looks at next. -/
inductive Same (graph : Graph) (options : CompareOptions) (S : Id → Id → Prop)
    (node1 node2 : Id) : Prop where
  | qualified {last1 last2 : Id} {qualifiers : Qualifiers} :
    Unqualified graph node1 last1 qualifiers → Unqualified graph node2 last2 qualifiers →
    qualifiers ≠ ∅ → S last1 last2 → Same graph options S node1 node2
  | typedefs {last1 last2 resolved1 resolved2 : Id} {typedefs1 typedefs2 : List String} :
    Unqualified graph node1 last1 ∅ → Unqualified graph node2 last2 ∅ →
    Resolved graph last1 resolved1 typedefs1 → Resolved graph last2 resolved2 typedefs2 →
    last1 ≠ resolved1 ∨ last2 ≠ resolved2 → S resolved1 resolved2 →
    Same graph options S node1 node2
  | nodes {last1 last2 : Id} {typedefs1 typedefs2 : List String} {type1 type2 : Node} :
    Unqualified graph node1 last1 ∅ → Unqualified graph node2 last2 ∅ →
    Resolved graph last1 last1 typedefs1 → Resolved graph last2 last2 typedefs2 →
    graph.get last1 = .ok type1 → graph.get last2 = .ok type2 →
    type1.Matches graph options S type2 → Same graph options S node1 node2

theorem Node.Matches.kind {self other : Node} (matched : self.Matches graph options S other) :
    self.kind = other.kind := by
  cases matched <;> rfl

theorem same_iff : Same graph options S node1 node2 ↔
    ∃ plan, Plans graph options (some node1, some node2) plan ∧ Hold S plan.steps := by
  constructor
  · intro same
    cases same with
    | qualified found1 found2 some_ related =>
      exact ⟨_, plans_iff.mpr (.qualified found1 found2 (.inl some_)),
        by simp [Step.Holds, related]⟩
    | typedefs found1 found2 walked1 walked2 moved related =>
      exact ⟨_, plans_iff.mpr (.typedefs found1 found2 walked1 walked2 moved),
        by simp [Step.Holds, related]⟩
    | nodes found1 found2 walked1 walked2 got1 got2 matched =>
      obtain ⟨plan, planned, hold⟩ := matched.planned
      exact ⟨plan, plans_iff.mpr
        (.nodes found1 found2 walked1 walked2 got1 got2 matched.kind planned), hold⟩
  · rintro ⟨plan, plans, hold⟩
    cases plans_iff.mp plans with
    | qualified found1 found2 some_ =>
      rw [hold_append, hold_qualifierSteps, hold_cons] at hold
      obtain ⟨rfl, related, _⟩ := hold
      exact .qualified found1 found2 (some_.elim id id) related
    | typedefs found1 found2 walked1 walked2 moved =>
      rw [hold_cons] at hold
      exact .typedefs found1 found2 walked1 walked2 moved hold.1
    | kinds found1 found2 walked1 walked2 got1 got2 differ =>
      rw [hold_cons] at hold
      exact hold.1.elim
    | nodes found1 found2 walked1 walked2 got1 got2 kinds planned =>
      obtain ⟨fuel, planned⟩ := planned
      exact .nodes found1 found2 walked1 walked2 got1 got2 ((Node.matches_of_plan planned).mp hold)

theorem hold_iff : Hold S plan.steps ↔ plan.clean = true ∧
    ∀ node1 node2, (some node1, some node2) ∈ plan.children → S node1 node2 := by
  simp only [Hold, Plan.clean, Plan.children, List.all_eq_true, List.mem_filterMap]
  constructor
  · refine fun hold => ⟨fun step present => ?_, ?_⟩
    · have holds := hold step present
      cases step with
      | compare => rfl
      | _ => exact holds.elim
    · rintro node1 node2 ⟨step, present, isChild⟩
      have holds := hold step present
      cases step <;> cases isChild
      exact holds
  · rintro ⟨clean, children⟩ step present
    have isClean := clean step present
    cases step with
    | compare text node1 node2 => exact children node1 node2 ⟨_, present, rfl⟩
    | _ => cases isClean

/-- The comparison of the two nodes finds no difference. -/
def Equal (graph : Graph) (options : CompareOptions) (node1 node2 : Id) : Prop :=
  Accepted graph options (· = true) (some node1, some node2)

theorem Equal.same (equal : Equal graph options node1 node2) :
    Same graph options (Equal graph options) node1 node2 := by
  obtain ⟨plan, plans, clean, children⟩ := Accepted.step equal
  exact same_iff.mpr ⟨plan, plans, hold_iff.mpr ⟨clean, fun _ _ present => children _ present⟩⟩

theorem Equal.of_same (same : Same graph options (Equal graph options) node1 node2) :
    Equal graph options node1 node2 := by
  obtain ⟨plan, plans, hold⟩ := same_iff.mp same
  obtain ⟨clean, children⟩ := hold_iff.mp hold
  refine Accepted.of_step plans clean fun child present => ?_
  obtain ⟨child1, child2, _, rfl⟩ := mem_children.mp present
  exact children child1 child2 present

/-- Any relation that one step preserves holds of equal nodes only. -/
theorem Equal.coinduct {R : Id → Id → Prop}
    (steps : ∀ node1 node2, R node1 node2 → Same graph options R node1 node2)
    (start : R node1 node2) : Equal graph options node1 node2 := by
  refine Accepted.coinduct (R := fun c => ∃ node1 node2, c = (some node1, some node2) ∧
    R node1 node2) ?_ ⟨node1, node2, rfl, start⟩
  rintro _ ⟨node1, node2, rfl, related⟩
  obtain ⟨plan, plans, hold⟩ := same_iff.mp (steps node1 node2 related)
  obtain ⟨clean, children⟩ := hold_iff.mp hold
  refine ⟨plan, plans, clean, fun child present => ?_⟩
  obtain ⟨child1, child2, _, rfl⟩ := mem_children.mp present
  exact ⟨child1, child2, rfl, children child1 child2 present⟩

theorem finds_equal_iff : Finds graph options node1 node2 true ↔ Equal graph options node1 node2 :=
  finds_true_iff

section Walks

variable {id last last1 last2 resolved1 resolved2 : Id} {qualifiers : Qualifiers}
  {typedefs typedefs1 typedefs2 : List String} {fuel : Nat}

/-- Only arrays and functions drop the qualifiers collected on the way. -/
theorem resolveQualifiers_dropped (some_ : qualifiers ≠ ∅)
    (found : resolveQualifiers graph fuel id qualifiers = .ok (last, ∅)) :
    ∃ node, graph.get last = .ok node ∧ (node.kind = .array ∨ node.kind = .function) := by
  induction fuel generalizing id qualifiers with
  | zero => cases found
  | succ fuel ih =>
    obtain ⟨node, got, rest⟩ := bind_eq_ok found
    cases node with
    | qualified node => exact ih (Finset.insert_ne_empty _ _) rest
    | array node => cases rest; exact ⟨_, got, .inl rfl⟩
    | function node => cases rest; exact ⟨_, got, .inr rfl⟩
    | _ => cases rest; exact absurd rfl some_

theorem Resolved.of_kind {node : Node} (got : graph.get id = .ok node)
    (kind : node.kind ≠ .typedef) : Resolved graph id id [] := by
  refine ⟨1, ?_⟩
  unfold resolveTypedefs
  rw [got]
  cases node <;> first | rfl | exact absurd rfl kind

/-- Dropping qualifiers on the way to a type leaves no typedef to follow. -/
theorem Unqualified.resolved (found : Unqualified graph id last ∅)
    (walked : Resolved graph id id typedefs) : Resolved graph last last [] := by
  obtain ⟨fuel, found⟩ := found
  cases fuel with
  | zero => cases found
  | succ fuel =>
    obtain ⟨node, got, rest⟩ := bind_eq_ok found
    cases node with
    | qualified node =>
      obtain ⟨target, got', dropped⟩ :=
        resolveQualifiers_dropped (Finset.insert_ne_empty node.qualifier ∅) rest
      exact .of_kind got' (by rcases dropped with kind | kind <;> simp [kind])
    | _ => cases rest; exact walked.ends

theorem Same.unqualified (same : Same graph options S node1 node2) :
    ∃ last1 last2 qualifiers, Unqualified graph node1 last1 qualifiers ∧
      Unqualified graph node2 last2 qualifiers := by
  cases same with
  | qualified found1 found2 _ _ => exact ⟨_, _, _, found1, found2⟩
  | typedefs found1 found2 _ _ _ _ => exact ⟨_, _, _, found1, found2⟩
  | nodes found1 found2 _ _ _ _ _ => exact ⟨_, _, _, found1, found2⟩

theorem Same.child_of_qualified (same : Same graph options S node1 node2)
    (found1 : Unqualified graph node1 last1 qualifiers)
    (found2 : Unqualified graph node2 last2 qualifiers) (some_ : qualifiers ≠ ∅) :
    S last1 last2 := by
  cases same with
  | qualified found1' found2' _ related =>
    obtain ⟨rfl, _⟩ := found1.unique found1'
    obtain ⟨rfl, _⟩ := found2.unique found2'
    exact related
  | typedefs found1' _ _ _ _ _ => exact absurd (found1.unique found1').2 some_
  | nodes found1' _ _ _ _ _ _ => exact absurd (found1.unique found1').2 some_

theorem Same.walks (same : Same graph options S node1 node2)
    (found1 : Unqualified graph node1 last1 ∅) (found2 : Unqualified graph node2 last2 ∅) :
    ∃ resolved1 resolved2 typedefs1 typedefs2, Resolved graph last1 resolved1 typedefs1 ∧
      Resolved graph last2 resolved2 typedefs2 := by
  cases same with
  | qualified found1' _ some_ _ => exact absurd (found1'.unique found1).2 some_
  | typedefs found1' found2' walked1 walked2 _ _ =>
    obtain ⟨rfl, _⟩ := found1.unique found1'
    obtain ⟨rfl, _⟩ := found2.unique found2'
    exact ⟨_, _, _, _, walked1, walked2⟩
  | nodes found1' found2' walked1 walked2 _ _ _ =>
    obtain ⟨rfl, _⟩ := found1.unique found1'
    obtain ⟨rfl, _⟩ := found2.unique found2'
    exact ⟨_, _, _, _, walked1, walked2⟩

/-- With no qualifiers and no typedefs to follow the nodes themselves match. -/
theorem Same.matches_of_settled (same : Same graph options S node1 node2)
    (found1 : Unqualified graph node1 last1 ∅) (found2 : Unqualified graph node2 last2 ∅)
    (walked1 : Resolved graph last1 last1 typedefs1)
    (walked2 : Resolved graph last2 last2 typedefs2) :
    ∃ type1 type2, graph.get last1 = .ok type1 ∧ graph.get last2 = .ok type2 ∧
      type1.Matches graph options S type2 := by
  cases same with
  | qualified found1' _ some_ _ => exact absurd (found1'.unique found1).2 some_
  | typedefs found1' found2' walked1' walked2' moved _ =>
    obtain ⟨rfl, rfl⟩ := walked1.unique_after walked1' found1 found1'
    obtain ⟨rfl, rfl⟩ := walked2.unique_after walked2' found2 found2'
    exact moved.elim (absurd rfl) (absurd rfl)
  | nodes found1' found2' _ _ got1 got2 matched =>
    obtain ⟨rfl, _⟩ := found1.unique found1'
    obtain ⟨rfl, _⟩ := found2.unique found2'
    exact ⟨_, _, got1, got2, matched⟩

/-- Without qualifiers, what equal nodes resolve to is equal. -/
theorem Equal.resolved (equal : Equal graph options node1 node2)
    (found1 : Unqualified graph node1 last1 ∅) (found2 : Unqualified graph node2 last2 ∅)
    (walked1 : Resolved graph last1 resolved1 typedefs1)
    (walked2 : Resolved graph last2 resolved2 typedefs2) :
    Equal graph options resolved1 resolved2 :=
  Accepted.resolved equal found1 found2 walked1 walked2

end Walks

end Stg
