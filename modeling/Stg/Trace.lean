import Stg.Lifetime

set_option autoImplicit false

/- The same code run with a record of what happens: the stores at every entry to and
return from a call of `Compare`, and every examination that is entered. -/
namespace Stg

open PathScc
open Relation (ReflTransGen)

inductive Event where
  | entered (s : State)
  | examined (comparison : Comparison)
  | returned (s : State)

abbrev TraceM := StateT State (StateT (List Event) (Except Error))

def emit (event : Event) : TraceM Unit :=
  StateT.lift (modify fun events => events ++ [event])

theorem emit_run {α : Type} (event : Event) (rest : Unit → TraceM α) (s : State)
    (log : List Event) :
    ((emit event >>= rest).run s).run log = ((rest ()).run s).run (log ++ [event]) := rfl

/-- `Compare`, with a record. An examination is entered once the comparison was opened. -/
def compareTraced (graph : Graph) (options : CompareOptions) : Nat → Id → Id → TraceM Answer
  | 0, _, _ => throw .outOfFuel
  | fuel + 1, node1, node2 => do
    emit (.entered (← get))
    let answer ← compareBody (fun node1 node2 => do
      emit (.examined (some node1, some node2))
      examine ⟨compareTraced graph options fuel, removed, added⟩ graph options fuel node1 node2)
      node1 node2
    emit (.returned (← get))
    pure answer

theorem compareTraced_succ (graph : Graph) (options : CompareOptions) (fuel : Nat)
    (node1 node2 : Id) (s : State) (log : List Event) :
    ((compareTraced graph options (fuel + 1) node1 node2).run s).run log =
      (((compareBody (fun node1 node2 => do
        emit (.examined (some node1, some node2))
        examine ⟨compareTraced graph options fuel, removed, added⟩ graph options fuel node1 node2)
        node1 node2 : TraceM Answer).run s).run (log ++ [.entered s])) >>= fun out =>
          .ok ((out.1.1, out.1.2), out.2 ++ [.returned out.1.2]) := rfl

/-- No pair is both known and open, and all provisional differences are those of open pairs. -/
def State.Consistent (s : State) : Prop :=
  (∀ c, s.known.lookup c ≠ none → c ∉ s.scc.open_) ∧
    ∀ c, s.provisional.lookup c ≠ none → c ∈ s.scc.open_

def Event.Consistent : Event → Prop
  | .entered s => s.Consistent
  | .examined _ => True
  | .returned s => s.Consistent

def Event.examination : Event → Option Comparison
  | .examined c => some c
  | _ => none

def examinations (events : List Event) : List Comparison := events.filterMap Event.examination

/-- What the record of a run from `s` to `s'` holds: each pair examined was not met
before, is met afterwards and was examined once. -/
structure Traced (s s' : State) (events : List Event) : Prop where
  consistent : ∀ event ∈ events, event.Consistent
  once : (examinations events).Nodup
  fresh : ∀ c ∈ examinations events, ¬ s.Met c
  met : ∀ c ∈ examinations events, s'.Met c

variable {graph : Graph} {options : CompareOptions} {s s' s'' : State}

theorem State.Later.met {s s' : State} (later : s.Later s') {c : Comparison} (met : s.Met c) :
    s'.Met c := by
  rcases met with known | isOpen
  · obtain ⟨verdict, held⟩ := Option.ne_none_iff_exists'.mp known
    exact .inl (by simp [later.known c verdict held])
  · exact .inr (later.opened.subset isOpen)

theorem Traced.nil (s : State) : Traced s s [] := by
  constructor <;> simp [examinations]

theorem Traced.append {first second : List Event} (traced : Traced s s' first)
    (traced' : Traced s' s'' second) (later : ∀ c, s.Met c → s'.Met c)
    (later' : ∀ c, s'.Met c → s''.Met c) : Traced s s'' (first ++ second) where
  consistent := by
    intro event present
    exact (List.mem_append.mp present).elim (traced.consistent event) (traced'.consistent event)
  once := by
    rw [examinations, List.filterMap_append, List.nodup_append]
    refine ⟨traced.once, traced'.once, fun a presentA b presentB equal => ?_⟩
    exact traced'.fresh b presentB (equal ▸ traced.met a presentA)
  fresh := by
    intro c present
    rw [examinations, List.filterMap_append, List.mem_append] at present
    rcases present with present | present
    · exact traced.fresh c present
    · exact fun met => traced'.fresh c present (later c met)
  met := by
    intro c present
    rw [examinations, List.filterMap_append, List.mem_append] at present
    rcases present with present | present
    · exact later' c (traced.met c present)
    · exact traced'.met c present

theorem State.Inv.consistent {R : Comparison → Prop} (inv : s.Inv graph options R) :
    s.Consistent :=
  ⟨fun _ known isOpen => known (inv.apart isOpen), inv.provisional⟩


theorem Traced.surround {s s' : State} {events : List Event} (traced : Traced s s' events)
    (before : s.Consistent) (after : s'.Consistent) :
    Traced s s' ([.entered s] ++ events ++ [.returned s']) := by
  have same : examinations ([.entered s] ++ events ++ [.returned s']) = examinations events := by
    simp [examinations, Event.examination, List.filterMap_cons]
  refine ⟨?_, same ▸ traced.once, same ▸ traced.fresh, same ▸ traced.met⟩
  simp only [List.forall_mem_append, List.forall_mem_singleton]
  exact ⟨⟨before, traced.consistent⟩, after⟩

/-- A traced call does what the plain call does, and adds a proper record. -/
def TracedCalls (graph : Graph) (options : CompareOptions) (nested : Id → Id → CompareM Answer)
    (traced : Id → Id → TraceM Answer) : Prop :=
  ∀ s node1 node2 answer s', (nested node1 node2).run s = .ok (answer, s') →
    s.Inv graph options (fun _ => True) →
    (∀ u ∈ s.scc.open_, ReflTransGen (ChildEdge graph options) u (some node1, some node2)) →
    ∀ log, ∃ events, ((traced node1 node2).run s).run log = .ok ((answer, s'), log ++ events) ∧
      Traced s s' events

section Steps

variable {nested : Id → Id → CompareM Answer} {traced : Id → Id → TraceM Answer}
  {s₀ s s' : State} {p : Comparison} {plan : Plan} {result result' : Result}

theorem runSteps_traced (log : List Event) (calls : Calls graph options (fun _ => True) nested)
    (tracedCalls : TracedCalls graph options nested traced) (plans : Plans graph options p plan)
    (todo : List Step) {done : List Step} (whole : done ++ todo = plan.steps)
    (progress : Progress graph options (fun _ => True) s₀ p plan s done result)
    (ran : (runSteps ⟨nested, removed, added⟩ todo result).run s = .ok (result', s')) :
    ∃ events, ((runSteps ⟨traced, removed, added⟩ todo result).run s).run log =
      .ok ((result', s'), log ++ events) ∧ Traced s s' events ∧ ∀ c, s.Met c → s'.Met c := by
  induction todo generalizing done s result log with
  | nil =>
    cases ran
    exact ⟨[], by simp; rfl, Traced.nil _, fun _ met => met⟩
  | cons step todo ih =>
    rw [runSteps_cons, StateT.run_bind] at ran
    obtain ⟨⟨result₁, s₁⟩, ranStep, ran⟩ := bind_eq_ok ran
    have among : step ∈ plan.steps := by rw [← whole]; simp
    have next := progress.step calls (fun _ _ _ _ => trivial) trivial plans among ranStep
    obtain ⟨events₁, tracedStep, traced₁, later₁⟩ : ∃ events,
        ((step.run ⟨traced, removed, added⟩ result).run s).run log =
          .ok ((result₁, s₁), log ++ events) ∧ Traced s s₁ events ∧ ∀ c, s.Met c → s₁.Met c := by
      cases step with
      | compare text node1 node2 =>
        rw [Step.run, StateT.run_bind] at ranStep
        obtain ⟨⟨answer, s₁⟩, called, ranStep⟩ := bind_eq_ok ranStep
        cases ranStep
        have edge : ChildEdge graph options p (some node1, some node2) :=
          plans.childEdge.mpr (List.mem_filterMap.mpr ⟨_, among, rfl⟩)
        have reach := fun u isOpen => (progress.examining.reach u isOpen).tail edge
        obtain ⟨events, ranTraced, traced⟩ := tracedCalls s node1 node2 answer _ called progress.inv
          reach log
        have later := (calls s node1 node2 answer _ called progress.inv trivial reach).later
        refine ⟨events, ?_, traced, fun _ => later.met⟩
        rw [Step.run, StateT.run_bind, StateT.run_bind, ranTraced]
        rfl
      | _ =>
        cases ranStep
        exact ⟨[], by simp; rfl, ⟨by simp, by simp [examinations], by simp [examinations],
          by simp [examinations]⟩, fun _ met => met⟩
    obtain ⟨events₂, tracedRest, traced₂, later₂⟩ := ih _ (by simpa using whole) next ran
    refine ⟨events₁ ++ events₂, ?_, traced₁.append traced₂ later₁ later₂,
      fun c met => later₂ c (later₁ c met)⟩
    rw [runSteps_cons, StateT.run_bind, StateT.run_bind, tracedStep, ← List.append_assoc]
    exact tracedRest

end Steps

theorem compareTraced_calls (fuel : Nat) :
    TracedCalls graph options (compare graph options fuel) (compareTraced graph options fuel) := by
  induction fuel with
  | zero => intro s node1 node2 answer s' ran; cases ran
  | succ fuel ih =>
    intro s node1 node2 answer s' ran inv reach log
    have inv' := (compare_calls (fun _ _ _ _ => trivial) (fuel + 1) s node1 node2 answer s' ran inv
      trivial reach).inv
    obtain ⟨events, body, traced⟩ : ∃ events, ((compareBody (fun node1 node2 => do
        emit (.examined (some node1, some node2))
        examine ⟨compareTraced graph options fuel, removed, added⟩ graph options fuel node1 node2)
        node1 node2 : TraceM Answer).run s).run (log ++ [Event.entered s]) =
          .ok ((answer, s'), log ++ [Event.entered s] ++ events) ∧ Traced s s' events := by
      rw [compare] at ran
      cases known : s.known.lookup (some node1, some node2) with
      | some verdict =>
        rw [compareBody_known known] at ran ⊢
        cases ran
        exact ⟨[], by simp; rfl, Traced.nil _⟩
      | none =>
        by_cases isOpen : (some node1, some node2) ∈ s.scc.open_
        · obtain ⟨ix, at_⟩ := List.mem_iff_getElem?.mp isOpen
          obtain ⟨reopened, valid⟩ := inv.valid.openNode_open at_
          rw [compareBody_open known reopened] at ran ⊢
          cases ran
          exact ⟨[], by simp; rfl, by constructor <;> simp [examinations]⟩
        · obtain ⟨scc, opened, valid, stack, roots⟩ := inv.valid.openNode_fresh isOpen
          rw [compareBody_fresh known opened] at ran ⊢
          obtain ⟨⟨result, s₁⟩, examined, concluded⟩ := bind_eq_ok ran
          obtain ⟨plan, planned⟩ := plan_of_returns ⟨_, _, examined⟩
          rw [examine_eq _ planned] at examined
          have plans : Plans graph options (some node1, some node2) plan := ⟨_, _, _, rfl, planned⟩
          have started := Progress.start inv trivial plans known isOpen reach valid stack roots
          have calls : Calls graph options (fun _ => True) (compare graph options fuel) :=
            compare_calls (fun _ _ _ _ => trivial) fuel
          obtain ⟨events, ranTraced, traced, later⟩ := runSteps_traced
            (log ++ [Event.entered s] ++ [.examined (some node1, some node2)]) calls ih plans
            plan.steps rfl started examined
          have progress := started.steps calls (fun _ _ _ _ => trivial) trivial plans plan.steps rfl
            examined
          obtain ⟨answer', s₂, concluded', _, later'⟩ := progress.conclude plans
          cases (concluded' (Except Error)).symm.trans concluded
          refine ⟨.examined (some node1, some node2) :: events, ?_, ?_⟩
          · rw [StateT.run_bind, emit_run, examine_eq _ planned, Plan.run, ranTraced]
            change ((conclude _ _ result : TraceM Answer).run s₁).run _ = _
            rw [concluded' (StateT (List Event) (Except Error)), List.append_assoc _ [_]]
            rfl
          · have met : State.Met { s with scc } (some node1, some node2) :=
              .inr (by rw [stack]; simp)
            refine ⟨?_, ?_, ?_, ?_⟩
            · simpa [Event.Consistent] using traced.consistent
            · refine List.nodup_cons.mpr ⟨fun again => ?_, traced.once⟩
              exact traced.fresh _ again met
            · refine List.forall_mem_cons.mpr ⟨?_, fun c present before => ?_⟩
              · exact fun before => before.elim (fun held => held known) isOpen
              · refine traced.fresh c present (before.imp_right fun before => ?_)
                rw [stack]
                exact List.mem_append_left _ before
            · exact List.forall_mem_cons.mpr ⟨later' _ (later _ met),
                fun c present => later' c (traced.met c present)⟩
    refine ⟨[.entered s] ++ events ++ [.returned s'], ?_,
      traced.surround inv.consistent inv'.consistent⟩
    rw [compareTraced_succ, body, ← List.append_assoc, ← List.append_assoc]
    rfl

/-- A sequence of top-level calls on one state. -/
def compareCalls {m : Type → Type} [Monad m] (call : Id → Id → m Answer)
    (pairs : List (Id × Id)) : m (List Answer) :=
  pairs.mapM fun pair => call pair.1 pair.2

theorem compareCalls_traced {fuel : Nat}
    (returns : ∀ s, Lifetime graph options s → ∀ node1 node2, graph.Is node1 → graph.Is node2 →
      ∃ answer s', runCompare graph options fuel s node1 node2 = .ok (answer, s'))
    (pairs : List (Id × Id)) (set : ∀ pair ∈ pairs, graph.Is pair.1 ∧ graph.Is pair.2) {s : State}
    (lifetime : Lifetime graph options s) (log : List Event) :
    ∃ answers s' events,
      (compareCalls (compare graph options fuel) pairs).run s = .ok (answers, s') ∧
      ((compareCalls (compareTraced graph options fuel) pairs).run s).run log =
        .ok ((answers, s'), log ++ events) ∧
      Lifetime graph options s' ∧ Traced s s' events ∧ ∀ c, s.Met c → s'.Met c := by
  induction pairs generalizing s log with
  | nil =>
    exact ⟨[], s, [], rfl, by simp [compareCalls]; rfl, lifetime, Traced.nil s, fun _ met => met⟩
  | cons pair pairs ih =>
    obtain ⟨set1, set2⟩ := set pair (by simp)
    obtain ⟨answer, s₁, ran⟩ := returns s lifetime pair.1 pair.2 set1 set2
    obtain ⟨inv, idle⟩ := lifetime.inv
    obtain ⟨_, _, later, _⟩ := runCompare_called (fun _ _ _ _ => trivial) inv idle trivial ran
    obtain ⟨events, ranTraced, traced⟩ := compareTraced_calls fuel s pair.1 pair.2 answer s₁ ran inv
      (by simp [idle]) log
    obtain ⟨answers, s₂, events', ranRest, tracedRest, lifetime', traced', later'⟩ := ih
      (fun pair present => set pair (by simp [present])) (.call lifetime ran) (log ++ events)
    refine ⟨answer :: answers, s₂, events ++ events', ?_, ?_, lifetime',
      traced.append traced' (fun _ => later.met) later', fun c met => later' c (later.met met)⟩
    · rw [compareCalls, List.mapM_cons, StateT.run_bind]
      change (runCompare graph options fuel s pair.1 pair.2 >>= _) = _
      rw [ran]
      change ((compareCalls (compare graph options fuel) pairs).run s₁ >>= _) = _
      rw [ranRest]
      rfl
    · rw [compareCalls, List.mapM_cons, StateT.run_bind, StateT.run_bind, ranTraced]
      change (((compareCalls (compareTraced graph options fuel) pairs).run s₁).run _ >>= _) = _
      rw [tracedRest, ← List.append_assoc]
      rfl

/-- Over the whole life of a state: every call returns, no pair is examined twice, the
stores are consistent at every entry and return, and nothing is left open or
provisional. That the calls return means that no internal error is reached. -/
theorem compare_lifetime (references : graph.ReferencesSet) (resolves : graph.Resolves)
    (options : CompareOptions) :
    ∃ enough, ∀ fuel, enough ≤ fuel → ∀ pairs : List (Id × Id),
      (∀ pair ∈ pairs, graph.Is pair.1 ∧ graph.Is pair.2) →
        ∃ answers s events,
          (compareCalls (compare graph options fuel) pairs).run {} = .ok (answers, s) ∧
          ((compareCalls (compareTraced graph options fuel) pairs).run {}).run [] =
            .ok ((answers, s), events) ∧
          (examinations events).Nodup ∧ (∀ event ∈ events, event.Consistent) ∧
          s.scc.empty ∧ s.provisional = ∅ := by
  obtain ⟨enough, returns⟩ := runCompare_returns references resolves options
  refine ⟨enough, fun fuel more pairs set => ?_⟩
  obtain ⟨answers, s, events, ran, ranTraced, lifetime, traced, _⟩ :=
    compareCalls_traced (returns fuel more) pairs set .new []
  obtain ⟨inv, idle⟩ := lifetime.inv
  exact ⟨answers, s, events, ran, ranTraced, traced.once, traced.consistent,
    inv.valid.empty_iff.mpr idle, inv.provisional_empty idle⟩

theorem compare_lifetime_lists :
    ∃ enough, ∀ fuel, enough ≤ fuel → ∀ pairs : List (Id × Id),
      (∀ pair ∈ pairs, (twoLists 8).Is pair.1 ∧ (twoLists 8).Is pair.2) →
        ∃ answers s events,
          (compareCalls (compare (twoLists 8) {} fuel) pairs).run {} = .ok (answers, s) ∧
          ((compareCalls (compareTraced (twoLists 8) {} fuel) pairs).run {}).run [] =
            .ok ((answers, s), events) ∧
          (examinations events).Nodup ∧ (∀ event ∈ events, event.Consistent) ∧
          s.scc.empty ∧ s.provisional = ∅ :=
  compare_lifetime (twoLists_references 8) (twoLists_resolves 8) {}

end Stg
