import Stg.Fuel
import Stg.PlanRefines
import Stg.Lib.Reach

set_option autoImplicit false

/- Which comparisons an examination requests, and whether it finds a difference of
its own. Both are read off the code, run with callbacks that only keep a record. -/
namespace Stg

inductive Request where
  | compare (node1 node2 : Id)
  | removed (node : Id)
  | added (node : Id)
  deriving DecidableEq, Repr

/-- The comparison that a request is about. -/
def Request.comparison : Request → Comparison
  | .compare node1 node2 => (some node1, some node2)
  | .removed node => (some node, none)
  | .added node => (none, some node)

abbrev Recorder := StateT (List Request) (Except Error)

/-- Every comparison requested is taken to be equal. -/
def recorder : Handlers Recorder where
  compare node1 node2 := do
    modify fun requests => requests ++ [.compare node1 node2]
    pure (true, none)
  removed node := do
    modify fun requests => requests ++ [.removed node]
    pure (some node, none)
  added node := do
    modify fun requests => requests ++ [.added node]
    pure (none, some node)

/-- The result of an examination on its own, and the requests it makes. -/
def inspect (graph : Graph) (options : CompareOptions) (fuel : Nat) (node1 node2 : Id) :
    Except Error (Result × List Request) :=
  (examine recorder graph options fuel node1 node2).run []

/-- The requests that the examination of a pair of nodes makes. -/
def Requests (graph : Graph) (options : CompareOptions) (comparison : Comparison)
    (requests : List Request) : Prop :=
  ∃ node1 node2 fuel result, comparison = (some node1, some node2) ∧
    inspect graph options fuel node1 node2 = .ok (result, requests)

/-- The examination of the first pair calls `Compare` on the second. -/
def ChildEdge (graph : Graph) (options : CompareOptions) (comparison child : Comparison) : Prop :=
  ∃ requests node1 node2, Requests graph options comparison requests ∧
    .compare node1 node2 ∈ requests ∧ child = (some node1, some node2)

/-- The examination finds the pair different even if all its children are equal. -/
def LocalDifference (graph : Graph) (options : CompareOptions) (comparison : Comparison) : Prop :=
  ∃ node1 node2 fuel result requests, comparison = (some node1, some node2) ∧
    inspect graph options fuel node1 node2 = .ok (result, requests) ∧ result.equals = false

def Step.request : Step → Option Request
  | .note _ | .incomparable => none
  | .removed _ node => some (.removed node)
  | .added _ node => some (.added node)
  | .compare _ node1 node2 => some (.compare node1 node2)

/-- Whether the step is no difference by itself. -/
def Step.clean : Step → Bool
  | .compare _ _ _ => true
  | _ => false

def Plan.clean (plan : Plan) : Bool := plan.steps.all Step.clean

def Plan.requests (plan : Plan) : List Request := plan.steps.filterMap Step.request

def Step.child : Step → Option Comparison
  | .compare _ node1 node2 => some (some node1, some node2)
  | _ => none

def Plan.children (plan : Plan) : List Comparison := plan.steps.filterMap Step.child

theorem runSteps_recorder (steps : List Step) (result : Result) (requests : List Request) :
    ∃ result', (runSteps recorder steps result).run requests =
        .ok (result', requests ++ steps.filterMap Step.request) ∧
      result'.equals = (result.equals && steps.all Step.clean) := by
  induction steps generalizing result requests with
  | nil => exact ⟨result, by simp; rfl, by simp⟩
  | cons step steps ih =>
    cases step with
    | note text =>
      obtain ⟨result', ran, equals⟩ := ih (result.addNodeDiff text) requests
      refine ⟨result', ?_, by simpa [Step.clean, Result.addNodeDiff] using equals⟩
      simpa [Step.run, Step.request, List.filterMap_cons] using ran
    | incomparable =>
      obtain ⟨result', ran, equals⟩ := ih result.markIncomparable requests
      refine ⟨result', ?_, by simpa [Step.clean, Result.markIncomparable] using equals⟩
      simpa [Step.run, Step.request, List.filterMap_cons] using ran
    | removed text node =>
      obtain ⟨result', ran, equals⟩ := ih (result.addEdgeDiff text (some node, none))
        (requests ++ [.removed node])
      refine ⟨result', ?_, by simpa [Step.clean, Result.addEdgeDiff] using equals⟩
      simpa [Step.run, Step.request, recorder] using ran
    | added text node =>
      obtain ⟨result', ran, equals⟩ := ih (result.addEdgeDiff text (none, some node))
        (requests ++ [.added node])
      refine ⟨result', ?_, by simpa [Step.clean, Result.addEdgeDiff] using equals⟩
      simpa [Step.run, Step.request, recorder] using ran
    | compare text node1 node2 =>
      obtain ⟨result', ran, equals⟩ := ih (result.maybeAddEdgeDiff text (true, none))
        (requests ++ [.compare node1 node2])
      refine ⟨result', ?_, by simpa [Step.clean, Result.maybeAddEdgeDiff] using equals⟩
      simpa [Step.run, Step.request, recorder] using ran

variable {graph : Graph} {options : CompareOptions}

theorem inspect_of_plan {fuel : Nat} {node1 node2 : Id} {plan : Plan}
    (planned : planOf graph options fuel node1 node2 = .ok plan) :
    ∃ result, inspect graph options fuel node1 node2 = .ok (result, plan.requests) ∧
      result.equals = plan.clean := by
  obtain ⟨result, ran, equals⟩ := runSteps_recorder plan.steps
    { diff := { holdsChanges := plan.holdsChanges } } []
  refine ⟨result, ?_, by simpa [Plan.clean] using equals⟩
  rw [inspect, examine_eq recorder planned]
  simpa [Plan.run, Plan.requests] using ran

theorem plan_of_inspect {fuel : Nat} {node1 node2 : Id} {result : Result}
    {requests : List Request}
    (inspected : inspect graph options fuel node1 node2 = .ok (result, requests)) :
    ∃ plan, planOf graph options fuel node1 node2 = .ok plan ∧ requests = plan.requests ∧
      result.equals = plan.clean := by
  obtain ⟨plan, planned⟩ := plan_of_returns ⟨[], _, inspected⟩
  obtain ⟨result', inspected', equals⟩ := inspect_of_plan planned
  rw [inspected] at inspected'
  cases inspected'
  exact ⟨plan, planned, rfl, equals⟩

theorem requests_iff {comparison : Comparison} {requests : List Request} :
    Requests graph options comparison requests ↔
      ∃ plan, Plans graph options comparison plan ∧ requests = plan.requests := by
  constructor
  · rintro ⟨node1, node2, fuel, result, same, inspected⟩
    obtain ⟨plan, planned, equal, _⟩ := plan_of_inspect inspected
    exact ⟨plan, ⟨node1, node2, fuel, same, planned⟩, equal⟩
  · rintro ⟨plan, ⟨node1, node2, fuel, same, planned⟩, rfl⟩
    obtain ⟨result, inspected, _⟩ := inspect_of_plan planned
    exact ⟨node1, node2, fuel, result, same, inspected⟩

theorem mem_children {plan : Plan} {child : Comparison} :
    child ∈ plan.children ↔ ∃ node1 node2, .compare node1 node2 ∈ plan.requests ∧
      child = (some node1, some node2) := by
  simp only [Plan.children, Plan.requests, List.mem_filterMap]
  constructor
  · rintro ⟨step, present, picked⟩
    cases step <;> cases picked
    exact ⟨_, _, ⟨_, present, rfl⟩, rfl⟩
  · rintro ⟨node1, node2, ⟨step, present, picked⟩, rfl⟩
    cases step <;> cases picked
    exact ⟨_, present, rfl⟩

theorem childEdge_iff {comparison child : Comparison} :
    ChildEdge graph options comparison child ↔
      ∃ plan, Plans graph options comparison plan ∧ child ∈ plan.children := by
  constructor
  · rintro ⟨requests, node1, node2, requested, present, rfl⟩
    obtain ⟨plan, plans, rfl⟩ := requests_iff.mp requested
    exact ⟨plan, plans, mem_children.mpr ⟨_, _, present, rfl⟩⟩
  · rintro ⟨plan, plans, present⟩
    obtain ⟨node1, node2, requested, rfl⟩ := mem_children.mp present
    exact ⟨plan.requests, node1, node2, requests_iff.mpr ⟨plan, plans, rfl⟩, requested, rfl⟩

theorem localDifference_iff {comparison : Comparison} :
    LocalDifference graph options comparison ↔
      ∃ plan, Plans graph options comparison plan ∧ plan.clean = false := by
  constructor
  · rintro ⟨node1, node2, fuel, result, requests, same, inspected, different⟩
    obtain ⟨plan, planned, _, equals⟩ := plan_of_inspect inspected
    exact ⟨plan, ⟨node1, node2, fuel, same, planned⟩, equals ▸ different⟩
  · rintro ⟨plan, ⟨node1, node2, fuel, same, planned⟩, different⟩
    obtain ⟨result, inspected, equals⟩ := inspect_of_plan planned
    exact ⟨node1, node2, fuel, result, _, same, inspected, equals ▸ different⟩

theorem Plans.childEdge {comparison child : Comparison} {plan : Plan}
    (plans : Plans graph options comparison plan) :
    ChildEdge graph options comparison child ↔ child ∈ plan.children := by
  rw [childEdge_iff]
  exact ⟨fun ⟨_, plans', present⟩ => plans.unique plans' ▸ present, fun present =>
    ⟨_, plans, present⟩⟩

theorem Plans.localDifference {comparison : Comparison} {plan : Plan}
    (plans : Plans graph options comparison plan) :
    LocalDifference graph options comparison ↔ plan.clean = false := by
  rw [localDifference_iff]
  exact ⟨fun ⟨_, plans', dirty⟩ => plans.unique plans' ▸ dirty, fun dirty => ⟨_, plans, dirty⟩⟩

/-- Equality of two cyclic graphs: no local difference can be reached. -/
def Alike (graph : Graph) (options : CompareOptions) : Comparison → Prop :=
  Reach.Safe (ChildEdge graph options) (LocalDifference graph options)

end Stg
