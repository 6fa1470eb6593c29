import Stg.Decision
import Stg.Terminates

set_option autoImplicit false

/- The cases of an examination, without fuel, and the properties of comparisons that
hold when they hold step by step along child comparisons. -/
namespace Stg

open Relation (ReflTransGen)

section

variable (graph : Graph) (options : CompareOptions)

/-- Following qualifiers from `id` ends at `last` with the qualifiers. -/
def Unqualified (id last : Id) (qualifiers : Qualifiers) : Prop :=
  ∃ fuel, resolveQualifiers graph fuel id ∅ = .ok (last, qualifiers)

/-- Following typedefs from `id` ends at `last`. -/
def Resolved (id last : Id) (typedefs : List String) : Prop :=
  ∃ fuel, resolveTypedefs graph fuel id [] = .ok (last, typedefs)

def Node.Plans (self other : Node) (plan : Plan) : Prop :=
  ∃ fuel, self.plan graph options fuel other = .ok plan

inductive Examined (node1 node2 : Id) : Plan → Prop where
  | qualified {last1 last2 : Id} {qualifiers1 qualifiers2 : Qualifiers} :
    Unqualified graph node1 last1 qualifiers1 → Unqualified graph node2 last2 qualifiers2 →
    qualifiers1 ≠ ∅ ∨ qualifiers2 ≠ ∅ →
    Examined node1 node2 { steps := qualifierSteps qualifiers1 qualifiers2 ++
      [.compare "underlying" last1 last2] }
  | typedefs {last1 last2 resolved1 resolved2 : Id} {typedefs1 typedefs2 : List String} :
    Unqualified graph node1 last1 ∅ → Unqualified graph node2 last2 ∅ →
    Resolved graph last1 resolved1 typedefs1 → Resolved graph last2 resolved2 typedefs2 →
    last1 ≠ resolved1 ∨ last2 ≠ resolved2 →
    Examined node1 node2
      ⟨typedefs1 ≠ [] ∧ typedefs2 ≠ [] ∧ typedefs1.head? = typedefs2.head?,
        [.compare "resolved" resolved1 resolved2]⟩
  | kinds {last1 last2 : Id} {typedefs1 typedefs2 : List String} {type1 type2 : Node} :
    Unqualified graph node1 last1 ∅ → Unqualified graph node2 last2 ∅ →
    Resolved graph last1 last1 typedefs1 → Resolved graph last2 last2 typedefs2 →
    graph.get last1 = .ok type1 → graph.get last2 = .ok type2 → type1.kind ≠ type2.kind →
    Examined node1 node2 { steps := [.incomparable] }
  | nodes {last1 last2 : Id} {typedefs1 typedefs2 : List String} {type1 type2 : Node}
      {plan : Plan} :
    Unqualified graph node1 last1 ∅ → Unqualified graph node2 last2 ∅ →
    Resolved graph last1 last1 typedefs1 → Resolved graph last2 last2 typedefs2 →
    graph.get last1 = .ok type1 → graph.get last2 = .ok type2 → type1.kind = type2.kind →
    type1.Plans graph options type2 plan → Examined node1 node2 plan

end

variable {graph : Graph} {options : CompareOptions} {id last last' : Id} {node1 node2 : Id}
  {qualifiers qualifiers' : Qualifiers} {typedefs typedefs' : List String} {plan : Plan}

theorem Unqualified.unique (found : Unqualified graph id last qualifiers)
    (found' : Unqualified graph id last' qualifiers') : last = last' ∧
    qualifiers = qualifiers' := by
  obtain ⟨fuel, found⟩ := found
  obtain ⟨fuel', found'⟩ := found'
  exact Prod.mk.inj (agree_of_yields (fun _ _ enough => resolveQualifiers_yields enough id ∅)
    found found')

theorem Resolved.unique (found : Resolved graph id last typedefs)
    (found' : Resolved graph id last' typedefs') : last = last' ∧ typedefs = typedefs' := by
  obtain ⟨fuel, found⟩ := found
  obtain ⟨fuel', found'⟩ := found'
  exact Prod.mk.inj (agree_of_yields (fun _ _ enough => resolveTypedefs_yields enough id [])
    found found')

/-- What a node resolves to, past its qualifiers, is one node. -/
theorem Resolved.unique_after {resolved resolved' : Id}
    (walked : Resolved graph last resolved typedefs)
    (walked' : Resolved graph last' resolved' typedefs')
    (found : Unqualified graph id last qualifiers)
    (found' : Unqualified graph id last' qualifiers') :
    last = last' ∧ resolved = resolved' := by
  obtain ⟨rfl, _⟩ := found.unique found'
  exact ⟨rfl, (walked.unique walked').1⟩

/-- Two ways that end do so within the same fuel. -/
theorem Unqualified.both {last1 last2 : Id} {qualifiers1 qualifiers2 : Qualifiers}
    (found1 : Unqualified graph node1 last1 qualifiers1)
    (found2 : Unqualified graph node2 last2 qualifiers2) : ∃ fuel, ∀ more, fuel ≤ more →
      resolveQualifiers graph more node1 ∅ = .ok (last1, qualifiers1) ∧
      resolveQualifiers graph more node2 ∅ = .ok (last2, qualifiers2) := by
  obtain ⟨fuel1, found1⟩ := found1
  obtain ⟨fuel2, found2⟩ := found2
  refine ⟨fuel1 + fuel2, fun more enough => ⟨?_, ?_⟩⟩
  · exact resolveQualifiers_yields (by omega) _ _ _ found1
  · exact resolveQualifiers_yields (by omega) _ _ _ found2

theorem Resolved.both {last1 last2 resolved1 resolved2 : Id} {typedefs1 typedefs2 : List String}
    (walked1 : Resolved graph last1 resolved1 typedefs1)
    (walked2 : Resolved graph last2 resolved2 typedefs2) : ∃ fuel, ∀ more, fuel ≤ more →
      resolveTypedefs graph more last1 [] = .ok (resolved1, typedefs1) ∧
      resolveTypedefs graph more last2 [] = .ok (resolved2, typedefs2) := by
  obtain ⟨fuel1, walked1⟩ := walked1
  obtain ⟨fuel2, walked2⟩ := walked2
  refine ⟨fuel1 + fuel2, fun more enough => ⟨?_, ?_⟩⟩
  · exact resolveTypedefs_yields (by omega) _ _ _ walked1
  · exact resolveTypedefs_yields (by omega) _ _ _ walked2

/-- Where qualifiers end there are none to follow. -/
theorem Unqualified.ends (found : Unqualified graph id last qualifiers) :
    Unqualified graph last last ∅ := by
  obtain ⟨fuel, found⟩ := found
  obtain ⟨node, got, other⟩ := resolveQualifiers_end found
  refine ⟨1, ?_⟩
  unfold resolveQualifiers
  rw [got]
  cases node <;> first | rfl | exact absurd rfl other

theorem Resolved.ends (found : Resolved graph id last typedefs) : Resolved graph last last [] := by
  obtain ⟨fuel, found⟩ := found
  obtain ⟨node, got, other⟩ := resolveTypedefs_end found
  refine ⟨1, ?_⟩
  unfold resolveTypedefs
  rw [got]
  cases node <;> first | rfl | exact absurd rfl other

theorem examined_of_planOf {fuel : Nat}
    (planned : planOf graph options fuel node1 node2 = .ok plan) :
    Examined graph options node1 node2 plan := by
  obtain ⟨⟨last1, qualifiers1⟩, found1, rest1⟩ := bind_eq_ok planned
  obtain ⟨⟨last2, qualifiers2⟩, found2, rest2⟩ := bind_eq_ok rest1
  dsimp only at rest2
  split at rest2
  · rename_i some_
    cases rest2
    exact .qualified ⟨fuel, found1⟩ ⟨fuel, found2⟩ some_
  rename_i none_
  obtain ⟨rfl, rfl⟩ : qualifiers1 = ∅ ∧ qualifiers2 = ∅ := by simpa [not_or] using none_
  obtain ⟨⟨resolved1, typedefs1⟩, walked1, rest3⟩ := bind_eq_ok rest2
  obtain ⟨⟨resolved2, typedefs2⟩, walked2, rest4⟩ := bind_eq_ok rest3
  dsimp only at rest4
  split at rest4
  · rename_i moved
    cases rest4
    exact .typedefs ⟨fuel, found1⟩ ⟨fuel, found2⟩ ⟨fuel, walked1⟩ ⟨fuel, walked2⟩ moved
  rename_i stayed
  obtain ⟨rfl, rfl⟩ : last1 = resolved1 ∧ last2 = resolved2 := by simpa [not_or] using stayed
  obtain ⟨type1, got1, rest5⟩ := bind_eq_ok rest4
  obtain ⟨type2, got2, rest6⟩ := bind_eq_ok rest5
  split at rest6
  · rename_i differ
    cases rest6
    exact .kinds ⟨fuel, found1⟩ ⟨fuel, found2⟩ ⟨fuel, walked1⟩ ⟨fuel, walked2⟩ got1 got2 differ
  · rename_i same
    exact .nodes ⟨fuel, found1⟩ ⟨fuel, found2⟩ ⟨fuel, walked1⟩ ⟨fuel, walked2⟩ got1 got2
      (not_not.mp same) ⟨fuel, rest6⟩

theorem planOf_of_examined (examined : Examined graph options node1 node2 plan) :
    ∃ fuel, planOf graph options fuel node1 node2 = .ok plan := by
  cases examined with
  | qualified found1 found2 some_ =>
    obtain ⟨fuel, found⟩ := found1.both found2
    obtain ⟨found1, found2⟩ := found fuel le_rfl
    refine ⟨fuel, ?_⟩
    simp only [planOf, found1, found2, bind, Except.bind, if_pos some_]
    rfl
  | typedefs found1 found2 walked1 walked2 moved =>
    obtain ⟨fuel, found⟩ := found1.both found2
    obtain ⟨fuel', walked⟩ := walked1.both walked2
    obtain ⟨found1, found2⟩ := found (fuel + fuel') (by omega)
    obtain ⟨walked1, walked2⟩ := walked (fuel + fuel') (by omega)
    refine ⟨fuel + fuel', ?_⟩
    simp only [planOf, found1, found2, walked1, walked2, bind, Except.bind, ne_eq,
      not_true, or_self,
      if_false, if_pos moved]
    rfl
  | kinds found1 found2 walked1 walked2 got1 got2 differ =>
    obtain ⟨fuel, found⟩ := found1.both found2
    obtain ⟨fuel', walked⟩ := walked1.both walked2
    obtain ⟨found1, found2⟩ := found (fuel + fuel') (by omega)
    obtain ⟨walked1, walked2⟩ := walked (fuel + fuel') (by omega)
    refine ⟨fuel + fuel', ?_⟩
    simp only [planOf, found1, found2, walked1, walked2, bind, Except.bind, ne_eq,
      not_true, or_self,
      if_false, got1, got2, if_pos differ]
    rfl
  | nodes found1 found2 walked1 walked2 got1 got2 same planned =>
    obtain ⟨fuel, found⟩ := found1.both found2
    obtain ⟨fuel', walked⟩ := walked1.both walked2
    obtain ⟨fuel'', planned⟩ := planned
    obtain ⟨found1, found2⟩ := found (fuel + fuel' + fuel'') (by omega)
    obtain ⟨walked1, walked2⟩ := walked (fuel + fuel' + fuel'') (by omega)
    refine ⟨fuel + fuel' + fuel'', ?_⟩
    simp only [planOf, found1, found2, walked1, walked2, bind, Except.bind, ne_eq,
      not_true, or_self,
      if_false, got1, got2, same]
    exact Node.plan_yields (by omega) _ _ plan planned

/-- The plans are what the cases of an examination give. -/
theorem plans_iff : Plans graph options (some node1, some node2) plan ↔
    Examined graph options node1 node2 plan := by
  constructor
  · rintro ⟨_, _, fuel, same, planned⟩
    cases same
    exact examined_of_planOf planned
  · intro examined
    obtain ⟨fuel, planned⟩ := planOf_of_examined examined
    exact ⟨node1, node2, fuel, rfl, planned⟩

section Accepted

variable {ok : Bool → Prop} {last1 last2 resolved1 resolved2 : Id}
  {typedefs1 typedefs2 : List String}

theorem Plans.unqualified (plans : Plans graph options (some node1, some node2) plan) :
    ∃ last1 last2 qualifiers1 qualifiers2, Unqualified graph node1 last1 qualifiers1 ∧
      Unqualified graph node2 last2 qualifiers2 := by
  cases plans_iff.mp plans with
  | qualified found1 found2 _ => exact ⟨_, _, _, _, found1, found2⟩
  | typedefs found1 found2 _ _ _ => exact ⟨_, _, _, _, found1, found2⟩
  | kinds found1 found2 _ _ _ _ _ => exact ⟨_, _, _, _, found1, found2⟩
  | nodes found1 found2 _ _ _ _ _ _ => exact ⟨_, _, _, _, found1, found2⟩

theorem Plans.resolved (plans : Plans graph options (some node1, some node2) plan)
    (found1 : Unqualified graph node1 last1 ∅) (found2 : Unqualified graph node2 last2 ∅) :
    ∃ resolved1 resolved2 typedefs1 typedefs2, Resolved graph last1 resolved1 typedefs1 ∧
      Resolved graph last2 resolved2 typedefs2 := by
  cases plans_iff.mp plans with
  | qualified found1' found2' some_ =>
    exact absurd some_ (by simp [(found1'.unique found1).2, (found2'.unique found2).2])
  | typedefs found1' found2' walked1 walked2 _ =>
    obtain ⟨rfl, _⟩ := found1.unique found1'
    obtain ⟨rfl, _⟩ := found2.unique found2'
    exact ⟨_, _, _, _, walked1, walked2⟩
  | kinds found1' found2' walked1 walked2 _ _ _ =>
    obtain ⟨rfl, _⟩ := found1.unique found1'
    obtain ⟨rfl, _⟩ := found2.unique found2'
    exact ⟨_, _, _, _, walked1, walked2⟩
  | nodes found1' found2' walked1 walked2 _ _ _ _ =>
    obtain ⟨rfl, _⟩ := found1.unique found1'
    obtain ⟨rfl, _⟩ := found2.unique found2'
    exact ⟨_, _, _, _, walked1, walked2⟩

/-- Without qualifiers, the comparison of what nodes resolve to is accepted with theirs. -/
theorem Accepted.resolved (accepted : Accepted graph options ok (some node1, some node2))
    (found1 : Unqualified graph node1 last1 ∅) (found2 : Unqualified graph node2 last2 ∅)
    (walked1 : Resolved graph last1 resolved1 typedefs1)
    (walked2 : Resolved graph last2 resolved2 typedefs2) :
    Accepted graph options ok (some resolved1, some resolved2) := by
  obtain ⟨plan, plans, isOk, children⟩ := accepted.step
  cases plans_iff.mp plans with
  | qualified found1' found2' some_ =>
    exact absurd some_ (by simp [(found1'.unique found1).2, (found2'.unique found2).2])
  | typedefs found1' found2' walked1' walked2' moved =>
    obtain ⟨rfl, rfl⟩ := walked1.unique_after walked1' found1 found1'
    obtain ⟨rfl, rfl⟩ := walked2.unique_after walked2' found2 found2'
    exact children _ (List.mem_filterMap.mpr ⟨_, List.mem_singleton_self _, rfl⟩)
  | kinds found1' found2' walked1' walked2' got1 got2 differ =>
    obtain ⟨rfl, rfl⟩ := walked1.unique_after walked1' found1 found1'
    obtain ⟨rfl, rfl⟩ := walked2.unique_after walked2' found2 found2'
    exact .of_step (plans_iff.mpr
      (.kinds found1.ends found2.ends walked1 walked2 got1 got2 differ)) isOk children
  | nodes found1' found2' walked1' walked2' got1 got2 same planned =>
    obtain ⟨rfl, rfl⟩ := walked1.unique_after walked1' found1 found1'
    obtain ⟨rfl, rfl⟩ := walked2.unique_after walked2' found2 found2'
    exact .of_step (plans_iff.mpr
      (.nodes found1.ends found2.ends walked1 walked2 got1 got2 same planned)) isOk children

end Accepted

end Stg
