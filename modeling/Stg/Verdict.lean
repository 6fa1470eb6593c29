import Stg.Close
import Stg.Terminates

set_option autoImplicit false

/- Correctness of `Compare`: what every call does, that calls return, and what the
verdict of a top-level call says about the two cyclic graphs. -/
namespace Stg

open PathScc
open Relation (ReflTransGen)

section Body

variable {n : Type → Type} [Monad n] [LawfulMonad n] [MonadExceptOf Error n]
  {examination : Id → Id → StateT State n Result} {node1 node2 : Id} {s : State}

theorem compareBody_known {verdict : Bool}
    (known : s.known.lookup (some node1, some node2) = some verdict) :
    (compareBody examination node1 node2).run s =
      pure ((verdict, if verdict then none else some (some node1, some node2)), s) := by
  simp only [compareBody, StateT.run_bind, StateT.run_get, pure_bind, known]
  cases verdict <;> simp

theorem compareBody_open {scc : Scc Comparison}
    (unknown : s.known.lookup (some node1, some node2) = none)
    (opened : s.scc.openNode (some node1, some node2) = .ok (none, scc)) :
    (compareBody examination node1 node2).run s =
      pure ((true, some (some node1, some node2)), { s with scc }) := by
  simp only [compareBody, StateT.run_bind, StateT.run_get, pure_bind, unknown, opened, ofExcept_ok,
    StateT.run_pure, StateT.run_modify]

theorem compareBody_fresh {handle : Nat} {scc : Scc Comparison}
    (unknown : s.known.lookup (some node1, some node2) = none)
    (opened : s.scc.openNode (some node1, some node2) = .ok (some handle, scc)) :
    (compareBody examination node1 node2).run s =
      ((examination node1 node2).run { s with scc } >>= fun out =>
        (conclude (some node1, some node2) handle out.1 : StateT State n Answer).run out.2) := by
  simp only [compareBody, StateT.run_bind, StateT.run_get, pure_bind, unknown, opened, ofExcept_ok,
    StateT.run_pure, StateT.run_modify]

end Body

section Calls

variable {graph : Graph} {options : CompareOptions} {R : Comparison → Prop} {s : State}
  {p : Comparison}

theorem Called.known (inv : s.Inv graph options R) {verdict : Bool}
    (known : s.known.lookup p = some verdict) :
    Called graph options R s p (verdict, if verdict then none else some p) s where
  inv := inv
  visited := Visited.skip inv.walk (by simp [State.config, Scc.config, known])
  later := State.Later.refl s
  finished := by
    intro i u beyond at_
    rw [List.getElem?_eq_none beyond] at at_
    cases at_
  noted := by simp [known]
  verdict := by
    have above : ∀ (i : Nat) (u : Comparison), s.scc.open_.length ≤ i →
        s.scc.open_[i]? ≠ some u := by
      intro i u beyond at_
      rw [List.getElem?_eq_none beyond] at at_
      cases at_
    simp only [known, ne_eq, Option.some.injEq, Bool.not_eq_false]
    exact ⟨fun equal => ⟨equal, fun i u beyond at_ => absurd at_ (above i u beyond)⟩, And.left⟩

theorem Called.reopened (inv : s.Inv graph options R)
    (reach : ∀ u ∈ s.scc.open_, ReflTransGen (ChildEdge graph options) u p) {ix : Nat}
    (at_ : s.scc.open_[ix]? = some p) {scc : Scc Comparison} (valid : scc.Valid)
    (opened : scc.open_ = s.scc.open_)
    (roots : scc.rootIndex = s.scc.rootIndex.rdropWhile (fun root => decide (ix < root))) :
    Called graph options R s p (true, some p) { s with scc } := by
  have visited : Visited (ChildEdge graph options) s.config (s.config.collapse ix) p :=
    Visited.reopen inv.walk at_ reach
  have collapsed : State.config { s with scc } = s.config.collapse ix := by
    simp [State.config, Scc.config, Config.collapse, opened, roots]
  have unknown := inv.apart (List.mem_of_getElem? at_)
  have above : ∀ (i : Nat) (u : Comparison), s.scc.open_.length ≤ i → scc.open_[i]? ≠ some u := by
    intro i u beyond at_
    rw [opened, List.getElem?_eq_none beyond] at at_
    cases at_
  have met : ∀ c, State.Met { s with scc } c ↔ s.Met c := by simp [State.Met, opened]
  refine ⟨⟨valid, collapsed ▸ visited.walk, ?_, inv.equal, inv.unequal, inv.recorded, ?_,
    inv.sided, ?_⟩, collapsed ▸ visited, ⟨?_, fun _ _ held => held, fun _ _ held => held,
    fun _ _ => rfl⟩, fun i u beyond at_ => absurd at_ (above i u beyond), ?_, ?_⟩
  · exact fun c present => inv.met c ((met c).mp present)
  · simpa only [met] using inv.outcomes
  · simpa only [opened] using inv.provisional
  · rw [opened]
  · simp [unknown]
  · simp only [unknown, ne_eq, reduceCtorEq, not_false_eq_true, true_and, true_iff]
    exact fun i u beyond at_ => absurd at_ (above i u beyond)

/-- Every call of `Compare` that returns does what `Called` says. -/
theorem compare_calls (closed : ∀ c child, R c → ChildEdge graph options c child → R child)
    (fuel : Nat) : Calls graph options R (compare graph options fuel) := by
  induction fuel with
  | zero => intro s node1 node2 answer s' ran; cases ran
  | succ fuel ih =>
    intro s node1 node2 answer s' ran inv inside reach
    rw [compare] at ran
    cases known : s.known.lookup (some node1, some node2) with
    | some verdict =>
      rw [compareBody_known known] at ran
      cases ran
      exact Called.known inv known
    | none =>
      by_cases isOpen : (some node1, some node2) ∈ s.scc.open_
      · obtain ⟨ix, at_⟩ := List.mem_iff_getElem?.mp isOpen
        obtain ⟨reopened, valid⟩ := inv.valid.openNode_open at_
        rw [compareBody_open known reopened] at ran
        cases ran
        exact Called.reopened inv reach at_ valid rfl rfl
      · obtain ⟨scc, opened, valid, stack, roots⟩ := inv.valid.openNode_fresh isOpen
        rw [compareBody_fresh known opened] at ran
        obtain ⟨⟨result, s₁⟩, examined, concluded⟩ := bind_eq_ok ran
        obtain ⟨plan, planned⟩ := plan_of_returns ⟨_, _, examined⟩
        rw [examine_eq _ planned] at examined
        have plans : Plans graph options (some node1, some node2) plan := ⟨_, _, _, rfl, planned⟩
        have started := Progress.start inv inside plans known isOpen reach valid stack roots
        have progress := started.steps ih closed inside plans plan.steps rfl examined
        obtain ⟨answer', s₂, concluded', called, _⟩ := progress.conclude plans
        cases (concluded' (Except Error)).symm.trans concluded
        exact called

/-- Examinations inside a closed set of comparisons succeed with `enough` fuel. -/
structure Confined (graph : Graph) (options : CompareOptions) (nodes : Finset Comparison)
    (enough : Nat) : Prop where
  planned : ∀ node1 node2, (some node1, some node2) ∈ nodes → ∀ fuel, enough ≤ fuel →
    ∃ plan, planOf graph options fuel node1 node2 = .ok plan
  closed : ∀ c ∈ nodes, ∀ child, ChildEdge graph options c child → child ∈ nodes

section Total

variable {nodes : Finset Comparison} {enough fuel : Nat} {nested : Id → Id → CompareM Answer}

/-- The calls that an examination with room left makes return. -/
def Returning (graph : Graph) (options : CompareOptions) (R : Comparison → Prop)
    (nodes : Finset Comparison) (room : Nat) (nested : Id → Id → CompareM Answer) : Prop :=
  ∀ s node1 node2, s.Inv graph options R → R (some node1, some node2) →
    (some node1, some node2) ∈ nodes →
    (∀ u ∈ s.scc.open_, ReflTransGen (ChildEdge graph options) u (some node1, some node2)) →
    s.config.pending nodes < room → ∃ answer s', (nested node1 node2).run s = .ok (answer, s')

theorem Progress.returns (room : Nat) (calls : Calls graph options R nested)
    (returning : Returning graph options R nodes room nested)
    (closed : ∀ c child, R c → ChildEdge graph options c child → R child) (inside : R p)
    (confined : ∀ child, ChildEdge graph options p child → child ∈ nodes) {plan : Plan}
    (plans : Plans graph options p plan) {s₀ : State} (todo : List Step) {done : List Step}
    (whole : done ++ todo = plan.steps) {result : Result}
    (progress : Progress graph options R s₀ p plan s done result)
    (bound : (s₀.config.push p).pending nodes < room) :
    ∃ result' s', (runSteps ⟨nested, removed, added⟩ todo result).run s = .ok (result', s') := by
  induction todo generalizing done s result with
  | nil => exact ⟨result, s, rfl⟩
  | cons step todo ih =>
    have among : step ∈ plan.steps := by rw [← whole]; simp
    obtain ⟨result₁, s₁, ranStep⟩ : ∃ result₁ s₁,
        (step.run ⟨nested, removed, added⟩ result).run s = .ok (result₁, s₁) := by
      cases step with
      | compare text node1 node2 =>
        have edge : ChildEdge graph options p (some node1, some node2) :=
          plans.childEdge.mpr (List.mem_filterMap.mpr ⟨_, among, rfl⟩)
        obtain ⟨answer, s₁, ran⟩ := returning s node1 node2 progress.inv (closed _ _ inside edge)
          (confined _ edge) (fun u isOpen => (progress.examining.reach u isOpen).tail edge)
          (Nat.lt_of_le_of_lt (progress.examining.grows.pending_le nodes) bound)
        exact ⟨_, s₁, by rw [Step.run, StateT.run_bind, ran]; rfl⟩
      | _ => exact ⟨_, _, rfl⟩
    have next := progress.step calls closed inside plans among ranStep
    obtain ⟨result', s', ran⟩ := ih (by simpa using whole) next
    exact ⟨result', s', by rw [runSteps_cons, StateT.run_bind, ranStep]; exact ran⟩

/-- With fuel for the walks and for the comparisons not met yet, calls return. -/
theorem compare_returns (confined : Confined graph options nodes enough)
    (closed : ∀ c child, R c → ChildEdge graph options c child → R child) (fuel room : Nat)
    (plenty : enough + room ≤ fuel) :
    Returning graph options R nodes room (compare graph options fuel) := by
  induction room generalizing fuel with
  | zero => intro s node1 node2 _ _ _ _ bound; exact absurd bound (Nat.not_lt_zero _)
  | succ room ih =>
    intro s node1 node2 inv inside among reach bound
    obtain ⟨fuel, rfl⟩ : ∃ less, fuel = less + 1 := ⟨fuel - 1, by omega⟩
    rw [compare]
    cases known : s.known.lookup (some node1, some node2) with
    | some verdict => exact ⟨_, _, compareBody_known known⟩
    | none =>
      by_cases isOpen : (some node1, some node2) ∈ s.scc.open_
      · obtain ⟨ix, at_⟩ := List.mem_iff_getElem?.mp isOpen
        exact ⟨_, _, compareBody_open known (inv.valid.openNode_open at_).1⟩
      · obtain ⟨scc, opened, valid, stack, roots⟩ := inv.valid.openNode_fresh isOpen
        obtain ⟨plan, planned⟩ := confined.planned node1 node2 among fuel (by omega)
        have plans : Plans graph options (some node1, some node2) plan := ⟨_, _, _, rfl, planned⟩
        have started := Progress.start inv inside plans known isOpen reach valid stack roots
        have smaller := Config.pending_push_lt (c := s.config) among isOpen
          (fun closed => closed known)
        obtain ⟨result, s₁, ran⟩ := started.returns room (compare_calls closed fuel)
          (ih fuel (by omega)) closed inside (confined.closed _ among) plans plan.steps rfl
          (by omega)
        have progress := started.steps (compare_calls closed fuel) closed inside plans plan.steps
          rfl ran
        obtain ⟨answer, s₂, concluded, _⟩ := progress.conclude plans
        refine ⟨answer, s₂, ?_⟩
        rw [compareBody_fresh known opened, examine_eq _ planned]
        change (StateT.run (runSteps _ plan.steps _) _ >>= _) = _
        rw [ran]
        exact concluded (Except Error)

end Total

end Calls

end Stg
