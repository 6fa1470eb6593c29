import Stg.Invariant

set_option autoImplicit false

/- The examination of one comparison keeps the invariant, whatever it requests, as
long as every call it makes does what `Called` says. -/
namespace Stg

open PathScc
open Relation (ReflTransGen)
open Emplace (emplace lookup_emplace lookup_emplace_ne)

section

variable (graph : Graph) (options : CompareOptions)

/-- Where the examination of `p`, opened in `s₀`, stands once the steps `done` of its
plan have been run. -/
structure Progress (R : Comparison → Prop) (s₀ : State) (p : Comparison) (plan : Plan) (s : State)
    (done : List Step) (result : Result) : Prop where
  inv : s.Inv graph options R
  later : s₀.Later s
  examining : Examining (ChildEdge graph options) s₀.config s.config p
    (fun c => ∃ step ∈ done, step.child = some c)
  absent : s.provisional.lookup p = none
  finished : ∀ (i : Nat) (u : Comparison), s₀.scc.open_.length < i → s.scc.open_[i]? = some u →
    s.Finished graph options u
  sided : ∀ step ∈ done, ∀ k, step.sided = some k → s.outcomes.lookup k = some {}
  diff : result.diff = diffOf plan.holdsChanges done s.kept
  equals : result.equals = true ↔ (∀ step ∈ done, step.clean = true) ∧
    (∀ step ∈ done, ∀ c, step.child = some c → s.known.lookup c ≠ some false) ∧
    ∀ (i : Nat) (u : Comparison), s₀.scc.open_.length < i → s.scc.open_[i]? = some u →
      s.Good graph options u

end

variable {graph : Graph} {options : CompareOptions} {R : Comparison → Prop} {s₀ s s' : State}
  {p : Comparison} {plan : Plan} {done : List Step} {result : Result}

theorem Progress.start (inv : s₀.Inv graph options R) (inside : R p)
    (plans : Plans graph options p plan) (unknown : s₀.known.lookup p = none)
    (fresh : p ∉ s₀.scc.open_)
    (reach : ∀ u ∈ s₀.scc.open_, ReflTransGen (ChildEdge graph options) u p)
    {scc : Scc Comparison} (valid : scc.Valid) (opened : scc.open_ = s₀.scc.open_ ++ [p])
    (roots : scc.rootIndex = s₀.scc.rootIndex ++ [s₀.scc.open_.length]) :
    Progress graph options R s₀ p plan { s₀ with scc } []
      { diff := { holdsChanges := plan.holdsChanges } } := by
  have pushed : State.config { s₀ with scc } = s₀.config.push p := by
    simp [State.config, Scc.config, Config.push, opened, roots]
  have started : Examining (ChildEdge graph options) s₀.config (State.config { s₀ with scc }) p
      (fun _ => False) :=
    pushed ▸ Examining.start inv.walk fresh (fun known => known unknown) reach
  have beyond : ∀ (i : Nat) (u : Comparison), s₀.scc.open_.length < i → scc.open_[i]? ≠ some u := by
    intro i u less at_
    have inside := (List.getElem?_eq_some_iff.mp at_).1
    rw [opened, List.length_append, List.length_singleton] at inside
    omega
  have metBefore : ∀ c, State.Met { s₀ with scc } c → c = p ∨ s₀.Met c := by
    rintro c (known | isOpen)
    · exact .inr (.inl known)
    · rw [opened, List.mem_append, List.mem_singleton] at isOpen
      exact isOpen.elim (fun old => .inr (.inr old)) .inl
  refine ⟨⟨valid, started.walk, ?_, inv.equal, inv.unequal, inv.recorded, ?_, inv.sided, ?_⟩,
    ⟨?_, fun _ _ held => held, fun _ _ held => held, fun _ _ => rfl⟩, ?_, ?_, ?_, ?_, ?_, ?_⟩
  · intro c met
    rcases metBefore c met with rfl | old
    · exact ⟨inside, plan, plans⟩
    · exact inv.met c old
  · intro c diff held
    rcases inv.outcomes c diff held with different | ⟨empty, d, plan, met, rest⟩
    · exact .inl different
    · refine .inr ⟨empty, d, plan, ?_, rest⟩
      exact met.imp_right fun isOpen => by rw [opened]; exact List.mem_append_left _ isOpen
  · intro c held
    rw [opened]
    exact List.mem_append_left _ (inv.provisional c held)
  · rw [opened]
    exact List.prefix_append _ _
  · simpa using started
  · by_contra held
    exact fresh (inv.provisional p held)
  · intro i u less at_
    exact absurd at_ (beyond i u less)
  · simp
  · rfl
  · simp only [List.not_mem_nil, false_implies, implies_true, true_and, true_iff]
    intro i u less at_
    exact absurd at_ (beyond i u less)

section Steps

variable {step : Step}

/-- A step that makes the nodes different by itself. -/
theorem Progress.change (progress : Progress graph options R s₀ p plan s done result)
    {result' : Result} (dirty : step.clean = false)
    (childless : step.child = none) (unsided : step.sided = none)
    (equals : result'.equals = false)
    (diff : result'.diff = diffOf plan.holdsChanges (done ++ [step]) s.kept) :
    Progress graph options R s₀ p plan s (done ++ [step]) result' where
  inv := progress.inv
  later := progress.later
  examining := by simpa [or_and_right, exists_or, childless] using progress.examining
  absent := progress.absent
  finished := progress.finished
  sided := by
    simpa [or_imp, forall_and, unsided] using progress.sided
  diff := diff
  equals := by simp [equals, dirty]

theorem Step.not_planned_of_sided {k : Comparison} (side : step.sided = some k) :
    ¬ Plans graph options k plan := by
  rintro ⟨node1, node2, fuel, rfl, _⟩
  cases step <;> cases side

theorem State.Inv.unknown_of_sided (inv : s.Inv graph options R) {k : Comparison}
    (side : step.sided = some k) : s.known.lookup k = none := by
  by_contra known
  obtain ⟨_, plan, plans⟩ := inv.met k (.inl known)
  exact Step.not_planned_of_sided side plans

/-- Recording a removed or an added node. -/
theorem State.Inv.emplace_sided (inv : s.Inv graph options R) (met : s.Met p)
    (plans : Plans graph options p plan) (among : step ∈ plan.steps) {k : Comparison}
    (side : step.sided = some k) :
    State.Inv graph options R { s with outcomes := emplace s.outcomes k {} } ∧
      (emplace s.outcomes k {}).lookup k = some {} ∧
      ∀ c diff, s.outcomes.lookup c = some diff →
        (emplace s.outcomes k {}).lookup c = some diff := by
  have unknown := inv.unknown_of_sided side
  have stored : (emplace s.outcomes k {}).lookup k = some {} := by
    rw [lookup_emplace, if_pos rfl]
    cases held : s.outcomes.lookup k with
    | none => rfl
    | some diff =>
      rcases inv.outcomes k diff held with different | ⟨rfl, _⟩
      · rw [unknown] at different; cases different
      · rfl
  have keeps : ∀ c diff, s.outcomes.lookup c = some diff →
      (emplace s.outcomes k {}).lookup c = some diff := by
    intro c diff held
    rw [lookup_emplace]
    split
    · rename_i same
      subst same
      rw [held]; rfl
    · exact held
  refine ⟨⟨inv.valid, inv.walk, inv.met, inv.equal, inv.unequal, ?_, ?_, ?_, inv.provisional⟩,
    stored, keeps⟩
  · intro c plan different plans
    exact keeps c _ (inv.recorded c plan different plans)
  · intro c diff held
    by_cases same : c = k
    · subst same
      rw [stored] at held
      cases held
      exact .inr ⟨rfl, p, plan, met, plans, step, among, side⟩
    · rw [lookup_emplace_ne same] at held
      exact inv.outcomes c diff held
  · intro c plan known plans step among k' side'
    exact keeps k' _ (inv.sided c plan known plans step among k' side')

theorem Progress.sidedStep (progress : Progress graph options R s₀ p plan s done result)
    (plans : Plans graph options p plan) (among : step ∈ plan.steps) {k : Comparison}
    (side : step.sided = some k) (text : String)
    (detail : step.detail s.kept = some ⟨text, some k⟩) :
    Progress graph options R s₀ p plan { s with outcomes := emplace s.outcomes k {} }
      (done ++ [step]) (result.addEdgeDiff text k) := by
  have isOpen : p ∈ s.scc.open_ := List.mem_of_getElem? progress.examining.self
  obtain ⟨inv, stored, keeps⟩ := progress.inv.emplace_sided (.inr isOpen) plans among side
  have childless : step.child = none := by cases step <;> cases side <;> rfl
  have dirty : step.clean = false := by cases step <;> cases side <;> rfl
  have changeless : step.isChange = false := by cases step <;> cases side <;> rfl
  refine ⟨inv, ⟨progress.later.opened, progress.later.known, ?_, progress.later.provisional⟩,
    ?_, progress.absent, ?_, ?_, ?_, ?_⟩
  · exact fun c diff held => keeps c diff (progress.later.outcomes c diff held)
  · change Examining _ _ s.config p _
    simpa [or_and_right, exists_or, childless] using progress.examining
  · intro i u less at_ plan plans
    obtain ⟨provisional, sided⟩ := progress.finished i u less at_ plan plans
    exact ⟨provisional, fun step among k side => keeps k _ (sided step among k side)⟩
  · intro step' among' k' side'
    rcases List.mem_append.mp among' with old | new
    · exact keeps k' _ (progress.sided step' old k' side')
    · obtain rfl := List.mem_singleton.mp new
      obtain rfl := Option.some.inj (side.symm.trans side')
      exact stored
  · change _ = diffOf _ _ s.kept
    rw [diffOf_concat, detail, changeless, Result.addEdgeDiff, progress.diff]
    rfl
  · simp [Result.addEdgeDiff, dirty]

theorem List.getElem?_of_later {α : Type} {l l' : List α} (isPrefix : l <+: l') {i : Nat}
    {a : α} (inside : i < l.length) (at_ : l'[i]? = some a) : l[i]? = some a := by
  obtain ⟨rest, rfl⟩ := isPrefix
  rwa [List.getElem?_append_left inside] at at_

/-- A child comparison, whatever its call found. -/
theorem Progress.call (progress : Progress graph options R s₀ p plan s done result)
    {text : String} {node1 node2 : Id} {answer : Answer}
    (called : Called graph options R s (some node1, some node2) answer s') :
    Progress graph options R s₀ p plan s' (done ++ [.compare text node1 node2])
      (result.maybeAddEdgeDiff text answer) := by
  have isOpen : p ∈ s.scc.open_ := List.mem_of_getElem? progress.examining.self
  have stable : ∀ child, Linked s.config p child →
      s'.known.lookup child = s.known.lookup child :=
    fun _ linked => progress.inv.child_stable called.inv called.later linked
  -- the open comparisons above `p` that were there before the call
  have old : ∀ (i : Nat) (u : Comparison), s₀.scc.open_.length < i → i < s.scc.open_.length →
      s'.scc.open_[i]? = some u → s.scc.open_[i]? = some u ∧
        ∀ child, ChildEdge graph options u child → Linked s.config u child := by
    intro i u above inside at_
    have before := List.getElem?_of_later called.later.opened inside at_
    exact ⟨before, progress.examining.finished i u above before⟩
  refine ⟨called.inv, progress.later.trans called.later, ?_, ?_, ?_, ?_, ?_, ?_⟩
  · have visited := progress.examining.visit called.visited
    simpa [or_and_right, exists_or, Step.child, eq_comm] using visited
  · rw [called.later.provisional p isOpen]
    exact progress.absent
  · intro i u above at_
    by_cases inside : i < s.scc.open_.length
    · obtain ⟨before, linked⟩ := old i u above inside at_
      exact progress.inv.finished_later called.inv called.later (List.mem_of_getElem? before) linked
        (progress.finished i u above before)
    · exact called.finished i u (Nat.le_of_not_lt inside) at_
  · intro step among k side
    rcases List.mem_append.mp among with among | new
    · exact called.later.outcomes k _ (progress.sided step among k side)
    · obtain rfl := List.mem_singleton.mp new
      cases side
  · have before : diffOf plan.holdsChanges done s.kept = diffOf plan.holdsChanges done s'.kept := by
      refine diffOf_congr fun step among child isChild => ?_
      simp only [State.kept, stable child (progress.examining.linked child ⟨step, among, isChild⟩)]
    rw [diffOf_concat, Result.maybeAddEdgeDiff, progress.diff, before, called.noted]
    by_cases equal : s'.known.lookup (some node1, some node2) = some true
    · simp [Step.detail, Step.isChange, State.kept, equal]
      rfl
    · simp [Step.detail, Step.isChange, State.kept, equal, Diff.add]
      rfl
  · have children : (∀ step ∈ done, ∀ c, step.child = some c → s.known.lookup c ≠ some false) ↔
        ∀ step ∈ done, ∀ c, step.child = some c → s'.known.lookup c ≠ some false := by
      refine forall_congr' fun step => forall_congr' fun among => forall_congr' fun child =>
        forall_congr' fun isChild => ?_
      rw [stable child (progress.examining.linked child ⟨step, among, isChild⟩)]
    have goods : (∀ (i : Nat) (u : Comparison), s₀.scc.open_.length < i →
        s'.scc.open_[i]? = some u → s'.Good graph options u) ↔
        (∀ (i : Nat) (u : Comparison), s₀.scc.open_.length < i →
          s.scc.open_[i]? = some u → s.Good graph options u) ∧
        ∀ (i : Nat) (u : Comparison), s.scc.open_.length ≤ i →
          s'.scc.open_[i]? = some u → s'.Good graph options u := by
      constructor
      · intro good
        refine ⟨fun i u above at_ => ?_, fun i u beyond at_ => ?_⟩
        · have after := getElem?_keep called.later.opened at_
          exact (progress.inv.good_later called.inv called.later
            (progress.examining.finished i u above at_)).mp (good i u above after)
        · have below := (List.getElem?_eq_some_iff.mp progress.examining.self).1
          exact good i u (Nat.lt_of_lt_of_le below beyond) at_
      · rintro ⟨goodOld, goodNew⟩ i u above at_
        by_cases inside : i < s.scc.open_.length
        · obtain ⟨before, linked⟩ := old i u above inside at_
          exact (progress.inv.good_later called.inv called.later linked).mpr
            (goodOld i u above before)
        · exact goodNew i u (Nat.le_of_not_lt inside) at_
    simp only [Result.maybeAddEdgeDiff, Bool.and_eq_true, progress.equals, called.verdict, goods,
      List.forall_mem_append, List.forall_mem_singleton, Step.clean, Step.child, Option.some.injEq,
      forall_eq', and_true]
    tauto

end Steps

/-- Every call returns as `Called` says, if it returns. -/
def Calls (graph : Graph) (options : CompareOptions) (R : Comparison → Prop)
    (nested : Id → Id → CompareM Answer) : Prop :=
  ∀ s node1 node2 answer s', (nested node1 node2).run s = .ok (answer, s') →
    s.Inv graph options R → R (some node1, some node2) →
    (∀ u ∈ s.scc.open_, ReflTransGen (ChildEdge graph options) u (some node1, some node2)) →
    Called graph options R s (some node1, some node2) answer s'

/-- Running one step of a plan. -/
theorem Progress.step {nested : Id → Id → CompareM Answer} (calls : Calls graph options R nested)
    (closed : ∀ c child, R c → ChildEdge graph options c child → R child) (inside : R p)
    (plans : Plans graph options p plan) {step : Step} (among : step ∈ plan.steps)
    (progress : Progress graph options R s₀ p plan s done result) {result' : Result}
    (ran : (step.run ⟨nested, removed, added⟩ result).run s = .ok (result', s')) :
    Progress graph options R s₀ p plan s' (done ++ [step]) result' := by
  cases step with
  | note text =>
    cases ran
    refine progress.change rfl rfl rfl rfl ?_
    rw [diffOf_concat, Result.addNodeDiff, progress.diff]
    rfl
  | incomparable =>
    cases ran
    refine progress.change rfl rfl rfl rfl ?_
    rw [diffOf_concat, Result.markIncomparable, progress.diff]
    simp [Step.isChange, Step.detail, diffOf]
  | removed text node =>
    cases ran
    exact progress.sidedStep plans among rfl text rfl
  | added text node =>
    cases ran
    exact progress.sidedStep plans among rfl text rfl
  | compare text node1 node2 =>
    rw [Step.run, StateT.run_bind] at ran
    obtain ⟨⟨answer, s₁⟩, called, ran⟩ := bind_eq_ok ran
    cases ran
    have edge : ChildEdge graph options p (some node1, some node2) :=
      plans.childEdge.mpr (List.mem_filterMap.mpr ⟨_, among, rfl⟩)
    refine progress.call
      (calls s node1 node2 answer _ called progress.inv (closed _ _ inside edge) ?_)
    exact fun u isOpen => (progress.examining.reach u isOpen).tail edge

/-- Running the rest of a plan. -/
theorem Progress.steps {nested : Id → Id → CompareM Answer} (calls : Calls graph options R nested)
    (closed : ∀ c child, R c → ChildEdge graph options c child → R child) (inside : R p)
    (plans : Plans graph options p plan) (todo : List Step) (whole : done ++ todo = plan.steps)
    (progress : Progress graph options R s₀ p plan s done result) {result' : Result}
    (ran : (runSteps ⟨nested, removed, added⟩ todo result).run s = .ok (result', s')) :
    Progress graph options R s₀ p plan s' plan.steps result' := by
  induction todo generalizing done s result with
  | nil =>
    cases ran
    rw [List.append_nil] at whole
    exact whole ▸ progress
  | cons step todo ih =>
    rw [runSteps_cons, StateT.run_bind] at ran
    obtain ⟨⟨result₁, s₁⟩, ranStep, ran⟩ := bind_eq_ok ran
    have among : step ∈ plan.steps := by rw [← whole]; simp
    exact ih (by simpa using whole) (progress.step calls closed inside plans among ranStep) ran

end Stg
