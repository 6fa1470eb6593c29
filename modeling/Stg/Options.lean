import Stg.Examined

set_option autoImplicit false

/- What ignoring more kinds of difference changes: the same comparisons are made, and
fewer of them are found to be different. -/
namespace Stg

open Relation (ReflTransGen)

/-- Every flag that is set on the left is set on the right. -/
structure CompareOptions.Within (options options' : CompareOptions) : Prop where
  symbolTypePresence : options.ignoreSymbolTypePresenceChanges = true →
    options'.ignoreSymbolTypePresenceChanges = true
  typeDeclarationStatus : options.ignoreTypeDeclarationStatusChanges = true →
    options'.ignoreTypeDeclarationStatusChanges = true

/-- A plan under other options: the same children, and no step that the narrower options
would not take. -/
structure Plan.Eased (options options' : CompareOptions) (plan plan' : Plan) : Prop where
  holdsChanges : plan'.holdsChanges = plan.holdsChanges
  children : plan'.children = plan.children
  steps : options.Within options' → plan'.steps.Sublist plan.steps

variable {graph : Graph} {options options' : CompareOptions} {fuel : Nat} {plan : Plan}

theorem Plan.Eased.refl (plan : Plan) : plan.Eased options options' plan :=
  ⟨rfl, rfl, fun _ => .refl _⟩

theorem Plan.Eased.clean {plan' : Plan} (eased : plan.Eased options options' plan')
    (within : options.Within options') (clean : plan.clean = true) : plan'.clean = true := by
  rw [Plan.clean, List.all_eq_true] at clean ⊢
  exact fun step among => clean step ((eased.steps within).subset among)

theorem Step.details_sublist {kept kept' : Comparison → Bool}
    (fewer : ∀ c, kept' c = true → kept c = true)
    (steps : List Step) :
    (steps.filterMap (detail kept')).Sublist (steps.filterMap (detail kept)) := by
  induction steps with
  | nil => exact .refl _
  | cons step steps ih =>
    rw [List.filterMap_cons, List.filterMap_cons]
    cases step with
    | note | removed | added => exact ih.cons_cons _
    | incomparable => exact ih
    | compare text node1 node2 =>
      simp only [detail]
      by_cases lost : kept' (some node1, some node2) = true
      · rw [if_pos lost, if_pos (fewer _ lost)]
        exact ih.cons_cons _
      · rw [if_neg lost]
        by_cases found : kept (some node1, some node2) = true
        · rw [if_pos found]
          exact ih.cons _
        · rwa [if_neg found]

/-- The one has details of the other only, and does not say that more has changed. -/
structure Diff.Eased (diff diff' : Diff) : Prop where
  holdsChanges : diff'.holdsChanges = diff.holdsChanges
  hasChanges : diff'.hasChanges = true → diff.hasChanges = true
  details : diff'.details.Sublist diff.details

theorem Plan.Eased.diff {plan' : Plan} {kept kept' : Comparison → Bool}
    (eased : plan.Eased options options' plan') (within : options.Within options')
    (fewer : ∀ c, kept' c = true → kept c = true) : (plan.diff kept).Eased (plan'.diff kept') where
  holdsChanges := eased.holdsChanges
  hasChanges changed := by
    obtain ⟨step, among, isChange⟩ := List.any_eq_true.mp changed
    exact List.any_eq_true.mpr ⟨step, (eased.steps within).subset among, isChange⟩
  details := (Step.details_sublist fewer plan'.steps).trans ((eased.steps within).filterMap _)

theorem statusChange_children (defined1 defined2 ignoreDiff : Bool) :
    (statusChange defined1 defined2 ignoreDiff).filterMap Step.child = [] := by
  unfold statusChange
  split <;> rfl

theorem statusChange_sublist {defined1 defined2 ignoreDiff ignoreDiff' : Bool}
    (more : ignoreDiff = true → ignoreDiff' = true) :
    (statusChange defined1 defined2 ignoreDiff').Sublist
      (statusChange defined1 defined2 ignoreDiff) := by
  cases ignoreDiff with
  | false =>
    cases ignoreDiff' with
    | false => exact .refl _
    | true => exact List.nil_sublist _
  | true =>
    rw [more rfl]

theorem symbolTypeSteps_sublist {ignoreDiff ignoreDiff' : Bool}
    (more : ignoreDiff = true → ignoreDiff' = true)
    (type1 type2 : Option Id) :
    (symbolTypeSteps ignoreDiff' type1 type2).Sublist (symbolTypeSteps ignoreDiff type1 type2) := by
  cases ignoreDiff with
  | false =>
    cases ignoreDiff' with
    | false => exact .refl _
    | true => cases type1 <;> cases type2 <;> simp [symbolTypeSteps]
  | true =>
    rw [more rfl]

/-- Plans that only record a change of status, under two options. -/
theorem statusChange_eased (holdsChanges defined1 defined2 : Bool) :
    Plan.Eased options options'
      ⟨holdsChanges, statusChange defined1 defined2 options.ignoreTypeDeclarationStatusChanges⟩
      ⟨holdsChanges,
        statusChange defined1 defined2 options'.ignoreTypeDeclarationStatusChanges⟩ where
  holdsChanges := rfl
  children := by simp only [Plan.children, statusChange_children]
  steps := fun within => statusChange_sublist within.typeDeclarationStatus

theorem StructUnion.plan_eased {self other : StructUnion}
    (planned : self.plan graph options fuel other = .ok plan) :
    ∃ plan', self.plan graph options' fuel other = .ok plan' ∧
      plan.Eased options options' plan' := by
  unfold StructUnion.plan at planned ⊢
  split
  · rename_i incomparable
    rw [if_pos incomparable] at planned
    exact ⟨plan, planned, .refl plan⟩
  · rename_i comparable
    rw [if_neg comparable] at planned
    split at planned
    · exact ⟨plan, planned, .refl plan⟩
    · cases planned
      exact ⟨_, rfl, statusChange_eased _ _ _⟩

theorem Enumeration.plan_eased {self other : Enumeration}
    (planned : self.plan options other = .ok plan) :
    ∃ plan', self.plan options' other = .ok plan' ∧ plan.Eased options options' plan' := by
  unfold Enumeration.plan at planned ⊢
  split
  · rename_i incomparable
    rw [if_pos incomparable] at planned
    exact ⟨plan, planned, .refl plan⟩
  · rename_i comparable
    rw [if_neg comparable] at planned
    split at planned
    · exact ⟨plan, planned, .refl plan⟩
    · cases planned
      exact ⟨_, rfl, statusChange_eased _ _ _⟩

theorem ElfSymbol.plan_eased (self other : ElfSymbol) :
    (self.plan options other).Eased options options' (self.plan options' other) where
  holdsChanges := rfl
  children := by
    cases held1 : self.typeId <;> cases held2 : other.typeId
    all_goals
      simp only [Plan.children, ElfSymbol.plan, held1, held2, symbolTypeSteps,
        List.filterMap_append]
      try split <;> split <;> rfl
  steps := fun within =>
    (List.Sublist.refl _).append (symbolTypeSteps_sublist within.symbolTypePresence _ _)

theorem Node.plan_eased {self other : Node}
    (planned : self.plan graph options fuel other = .ok plan) :
    ∃ plan', self.plan graph options' fuel other = .ok plan' ∧
      plan.Eased options options' plan' := by
  unfold Node.plan at planned ⊢
  split at planned
  case h_11 => exact StructUnion.plan_eased planned
  case h_12 => exact Enumeration.plan_eased planned
  case h_14 =>
    cases planned
    exact ⟨_, rfl, ElfSymbol.plan_eased _ _⟩
  all_goals exact ⟨plan, planned, .refl plan⟩

theorem Plans.eased (options' : CompareOptions) {c : Comparison}
    (plans : Plans graph options c plan) :
    ∃ plan', Plans graph options' c plan' ∧ plan.Eased options options' plan' := by
  obtain ⟨node1, node2, _, _, rfl⟩ := plans.set
  cases plans_iff.mp plans with
  | qualified found1 found2 some_ =>
    exact ⟨_, plans_iff.mpr (.qualified found1 found2 some_), .refl _⟩
  | typedefs found1 found2 walked1 walked2 moved =>
    exact ⟨_, plans_iff.mpr (.typedefs found1 found2 walked1 walked2 moved), .refl _⟩
  | kinds found1 found2 walked1 walked2 got1 got2 differ =>
    exact ⟨_, plans_iff.mpr (.kinds found1 found2 walked1 walked2 got1 got2 differ), .refl _⟩
  | nodes found1 found2 walked1 walked2 got1 got2 same planned =>
    obtain ⟨fuel, planned⟩ := planned
    obtain ⟨plan', planned', eased⟩ := Node.plan_eased planned
    exact ⟨plan', plans_iff.mpr
      (.nodes found1 found2 walked1 walked2 got1 got2 same ⟨fuel, planned'⟩),
      eased⟩

variable {c d : Comparison}

/-- Options do not change which comparisons are made. -/
theorem ChildEdge.eased (edge : ChildEdge graph options c d) : ChildEdge graph options' c d := by
  obtain ⟨plan, plans, present⟩ := childEdge_iff.mp edge
  obtain ⟨plan', plans', eased⟩ := plans.eased options'
  exact childEdge_iff.mpr ⟨plan', plans', eased.children ▸ present⟩

theorem Explorable.eased (explorable : Explorable graph options c) :
    Explorable graph options' c :=
  Reach.Safe.simulate (R := Eq)
    (fun _ _ same unplanned => by
      rintro ⟨plan, plans, _⟩
      obtain ⟨plan', plans', _⟩ := plans.eased options'
      exact unplanned ⟨plan', same ▸ plans', trivial⟩)
    (fun _ _ child same edge => ⟨child, same ▸ edge.eased, rfl⟩) rfl explorable

theorem CompareOptions.Within.alike (within : options.Within options')
    (alike : Alike graph options c) : Alike graph options' c :=
  Reach.Safe.simulate (R := Eq)
    (fun _ _ same differs => by
      obtain ⟨plan', plans', dirty⟩ := localDifference_iff.mp differs
      obtain ⟨plan, plans, _⟩ := plans'.eased options
      obtain ⟨plan'', plans'', eased⟩ := plans.eased options'
      cases plans'.unique plans''
      refine same ▸ plans.localDifference.mpr ?_
      by_contra clean
      rw [eased.clean within (by simpa using clean)] at dirty
      cases dirty)
    (fun _ _ child same edge => ⟨child, same ▸ edge.eased, rfl⟩) rfl alike

variable {node1 node2 : Id} {answer : Answer} {s : State}

/-- Ignoring more makes the same comparisons, finds fewer of them different and leaves fewer
details of these. -/
theorem ignore_options_monotone (options options' : CompareOptions)
    (within : options.Within options')
    (ran : runCompare graph options fuel {} node1 node2 = .ok (answer, s)) :
    (∃ enough, ∀ fuel', enough ≤ fuel' → ∃ answer' s',
      runCompare graph options' fuel' {} node1 node2 = .ok (answer', s')) ∧
    ∀ fuel' answer' s', runCompare graph options' fuel' {} node1 node2 = .ok (answer', s') →
      (answer.1 = true → answer'.1 = true) ∧
      (∀ c, s.known.lookup c ≠ none ↔ s'.known.lookup c ≠ none) ∧
      (∀ c, s'.known.lookup c = some false → s.known.lookup c = some false) ∧
      ∀ c diff', s'.outcomes.lookup c = some diff' →
        ∃ diff, s.outcomes.lookup c = some diff ∧ diff.Eased diff' := by
  refine ⟨(Explorable.eased (explorable_of_returns ran)).returns, fun fuel' answer' s' ran' => ?_⟩
  obtain ⟨inv, _, verdict, known, rfl⟩ := runCompare_fresh ran
  obtain ⟨inv', idle', verdict', known', rfl⟩ := runCompare_fresh ran'
  have examined : ∀ c, s.known.lookup c ≠ none ↔ s'.known.lookup c ≠ none := by
    intro c
    rw [known_iff_reachable ran, known_iff_reachable ran']
    exact ⟨ReflTransGen.mono (fun _ _ edge => ChildEdge.eased edge) _ _,
      ReflTransGen.mono (fun _ _ edge => ChildEdge.eased edge) _ _⟩
  have equal : ∀ c, s.known.lookup c = some true → s'.known.lookup c = some true := by
    intro c held
    obtain ⟨found, held'⟩ := Option.ne_none_iff_exists'.mp ((examined c).mp (by simp [held]))
    rw [held', (inv'.verdict_iff held').mpr (within.alike ((inv.verdict_iff held).mp rfl))]
  have unequal : ∀ c, s'.known.lookup c = some false → s.known.lookup c = some false := by
    intro c held'
    obtain ⟨found, held⟩ := Option.ne_none_iff_exists'.mp ((examined c).mpr (by simp [held']))
    cases found with
    | false => exact held
    | true => cases held'.symm.trans (equal c held)
  refine ⟨fun equals => ?_, examined, unequal, fun c diff' held' => ?_⟩
  · exact (inv'.verdict_iff known').mpr (within.alike ((inv.verdict_iff known).mp equals))
  · rcases (inv'.outcomes_keys idle').mp (held' ▸ Option.some_ne_none _) with
      differs | ⟨d, plan', settled, plans', step, among, sided⟩
    · obtain ⟨plan, plans⟩ := inv.has_plan (c := c) (by simp [unequal c differs])
      obtain ⟨plan', plans', eased⟩ := plans.eased options'
      cases held'.symm.trans (inv'.recorded c plan' differs plans')
      refine ⟨_, inv.recorded c plan (unequal c differs) plans, eased.diff within fun d kept' => ?_⟩
      simp only [State.kept, ne_eq, decide_eq_true_eq] at kept' ⊢
      exact fun alike => kept' (equal d alike)
    · obtain ⟨plan, plans⟩ := inv.has_plan ((examined d).mpr settled)
      obtain ⟨plan'', plans'', eased⟩ := plans.eased options'
      rw [← plans''.unique plans'] at among
      cases held'.symm.trans (inv'.sided d plan'' settled plans'' step among c sided)
      refine ⟨{}, inv.sided d plan ((examined d).mpr settled) plans step ?_ c sided,
        ⟨rfl, id, .refl _⟩⟩
      exact (eased.steps within).subset among

/-- A struct that is defined and one of the same name that is only declared. -/
def declaredList : Graph where
  nodes := [
    some (.structUnion ⟨.struct, "list", some ⟨8, [], [], []⟩⟩),
    some (.structUnion ⟨.struct, "list", none⟩)]

theorem ignore_options_monotone_declared : ∃ answer s,
    runCompare declaredList {} 3 {} ⟨0⟩ ⟨1⟩ = .ok (answer, s) ∧
    (∃ enough, ∀ fuel', enough ≤ fuel' → ∃ answer' s',
      runCompare declaredList ⟨false, true⟩ fuel' {} ⟨0⟩ ⟨1⟩ = .ok (answer', s')) ∧
    ∀ fuel' answer' s',
      runCompare declaredList ⟨false, true⟩ fuel' {} ⟨0⟩ ⟨1⟩ = .ok (answer', s') →
        (answer.1 = true → answer'.1 = true) ∧
        (∀ c, s.known.lookup c ≠ none ↔ s'.known.lookup c ≠ none) ∧
        (∀ c, s'.known.lookup c = some false → s.known.lookup c = some false) ∧
        ∀ c diff', s'.outcomes.lookup c = some diff' →
          ∃ diff, s.outcomes.lookup c = some diff ∧ diff.Eased diff' := by
  obtain ⟨answer, s, ran⟩ : ∃ answer s,
      runCompare declaredList {} 3 {} ⟨0⟩ ⟨1⟩ = .ok (answer, s) := ⟨_, _, rfl⟩
  exact ⟨answer, s, ran, ignore_options_monotone {} ⟨false, true⟩ ⟨id, fun _ => rfl⟩ ran⟩

end Stg
