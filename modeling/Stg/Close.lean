import Stg.Examine

set_option autoImplicit false

/- Closing a comparison that has been examined: either it waits for an earlier
comparison of its component, or it is the first one and settles all of them. -/
namespace Stg

open PathScc
open Relation (ReflTransGen)
open Emplace (emplace lookup_emplace lookup_emplace_ne lookup_emplace_new)

variable {graph : Graph} {options : CompareOptions} {R : Comparison → Prop} {s₀ s s' : State}
  {p : Comparison} {plan : Plan} {result : Result}

section Examined

theorem Progress.complete (plans : Plans graph options p plan) (child : Comparison)
    (edge : ChildEdge graph options p child) : ∃ step ∈ plan.steps, step.child = some child :=
  List.mem_filterMap.mp (plans.childEdge.mp edge)

theorem mem_drop_iff {l : List Comparison} {n : Nat} {u : Comparison} :
    u ∈ l.drop n ↔ ∃ i, n ≤ i ∧ l[i]? = some u := by
  rw [List.mem_iff_getElem?]
  constructor
  · rintro ⟨k, at_⟩
    rw [List.getElem?_drop] at at_
    exact ⟨n + k, Nat.le_add_right n k, at_⟩
  · rintro ⟨i, beyond, at_⟩
    refine ⟨i - n, ?_⟩
    rw [List.getElem?_drop, Nat.add_sub_cancel' beyond]
    exact at_

/-- The comparisons from `p` on are `p` itself and those opened during its examination. -/
theorem Progress.mem_segment
    (progress : Progress graph options R s₀ p plan s plan.steps result) (u : Comparison) :
    u ∈ s.scc.open_.drop s₀.scc.open_.length ↔ u = p ∨
      ∃ i, s₀.scc.open_.length < i ∧ s.scc.open_[i]? = some u := by
  have self : s.scc.open_[s₀.scc.open_.length]? = some p := progress.examining.self
  rw [mem_drop_iff]
  constructor
  · rintro ⟨i, beyond, at_⟩
    rcases Nat.eq_or_lt_of_le beyond with rfl | above
    · exact .inl (Option.some.inj (at_.symm.trans self))
    · exact .inr ⟨i, above, at_⟩
  · rintro (rfl | ⟨i, above, at_⟩)
    · exact ⟨_, Nat.le_refl _, self⟩
    · exact ⟨i, Nat.le_of_lt above, at_⟩

theorem Progress.not_self
    (progress : Progress graph options R s₀ p plan s plan.steps result) {i : Nat} {u : Comparison}
    (other : i ≠ s₀.scc.open_.length) (at_ : s.scc.open_[i]? = some u) : u ≠ p := by
  rintro rfl
  exact other (progress.inv.valid.stacked.index_unique at_ progress.examining.self)

/-- The answer of an examination speaks about all comparisons from `p` on. -/
theorem Progress.equals_iff
    (progress : Progress graph options R s₀ p plan s plan.steps result)
    (plans : Plans graph options p plan) :
    result.equals = true ↔
      ∀ u ∈ s.scc.open_.drop s₀.scc.open_.length, s.Good graph options u := by
  have self : s.Good graph options p ↔ (∀ step ∈ plan.steps, step.clean = true) ∧
      ∀ step ∈ plan.steps, ∀ c, step.child = some c → s.known.lookup c ≠ some false := by
    rw [State.Good, plans.localDifference, Plan.clean, ← Bool.not_eq_true, not_not,
      List.all_eq_true]
    refine and_congr_right fun _ => ?_
    constructor
    · exact fun good step among c isChild =>
        good c (plans.childEdge.mpr (List.mem_filterMap.mpr ⟨step, among, isChild⟩))
    · intro good c edge
      obtain ⟨step, among, isChild⟩ := Progress.complete plans c edge
      exact good step among c isChild
  rw [progress.equals, ← and_assoc, ← self]
  constructor
  · rintro ⟨good, others⟩ u present
    rcases (progress.mem_segment u).mp present with rfl | ⟨i, above, at_⟩
    · exact good
    · exact others i u above at_
  · intro good
    exact ⟨good p ((progress.mem_segment p).mpr (.inl rfl)),
      fun i u above at_ => good u ((progress.mem_segment u).mpr (.inr ⟨i, above, at_⟩))⟩

/-- Once the provisional differences of `p` are stored, all comparisons from `p` on
have theirs. -/
theorem Progress.stored
    (progress : Progress graph options R s₀ p plan s plan.steps result)
    (plans : Plans graph options p plan) {u : Comparison}
    (present : u ∈ s.scc.open_.drop s₀.scc.open_.length) :
    State.Finished graph options
      { s with provisional := emplace s.provisional p result.diff } u := by
  intro plan' plans'
  rcases (progress.mem_segment u).mp present with rfl | ⟨i, above, at_⟩
  · obtain rfl := plans.unique plans'
    refine ⟨?_, progress.sided⟩
    rw [lookup_emplace_new progress.absent, progress.diff]
    rfl
  · obtain ⟨stored, sided⟩ := progress.finished i u above at_ plan' plans'
    refine ⟨?_, sided⟩
    rw [lookup_emplace_ne (progress.not_self (Nat.ne_of_gt above) at_), stored]
    rfl

/-- The comparisons open before `p` keep their provisional differences. -/
theorem Progress.provisional_before
    (progress : Progress graph options R s₀ p plan s plan.steps result) {c : Comparison}
    (before : c ∈ s₀.scc.open_) :
    (emplace s.provisional p result.diff).lookup c = s₀.provisional.lookup c := by
  obtain ⟨i, at_⟩ := List.mem_iff_getElem?.mp before
  have inside := (List.getElem?_eq_some_iff.mp at_).1
  rw [lookup_emplace_ne (progress.not_self (Nat.ne_of_lt inside)
    (getElem?_keep progress.later.opened at_)), progress.later.provisional c before]

end Examined

/-- `p` is not the first of its component: it stays open with its differences. -/
theorem Progress.stays (progress : Progress graph options R s₀ p plan s plan.steps result)
    (plans : Plans graph options p plan) {root : Nat}
    (last : s.scc.rootIndex.getLast? = some root) (lower : root ≠ s₀.scc.open_.length) :
    Called graph options R s₀ p (result.equals, some p)
      { s with provisional := emplace s.provisional p result.diff } where
  inv := by
    refine { progress.inv with provisional := fun c held => ?_ }
    by_cases same : c = p
    · subst same
      exact List.mem_of_getElem? progress.examining.self
    · rw [lookup_emplace_ne same] at held
      exact progress.inv.provisional c held
  visited := progress.examining.stay (Progress.complete plans) last lower
  later := { progress.later with
    provisional := fun _ before => progress.provisional_before before }
  finished := fun i u beyond at_ => progress.stored plans (mem_drop_iff.mpr ⟨i, beyond, at_⟩)
  noted := by
    have unknown := progress.inv.apart (List.mem_of_getElem? progress.examining.self)
    simp [unknown]
  verdict := by
    have unknown := progress.inv.apart (List.mem_of_getElem? progress.examining.self)
    rw [progress.equals_iff plans]
    simp only [unknown, ne_eq, reduceCtorEq, not_false_eq_true, true_and, mem_drop_iff]
    constructor
    · exact fun good i u beyond at_ => good u ⟨i, beyond, at_⟩
    · rintro good u ⟨i, beyond, at_⟩
      exact good i u beyond at_

section Root

variable (progress : Progress graph options R s₀ p plan s plan.steps result)
  (plans : Plans graph options p plan)
  (last : s.scc.rootIndex.getLast? = some s₀.scc.open_.length)
  {scc : Scc Comparison} (valid : scc.Valid)
  (opened : scc.open_ = s.scc.open_.take s₀.scc.open_.length)
  (roots : scc.rootIndex = s.scc.rootIndex.dropLast)
  (settled : Settled result.equals (s.scc.open_.drop s₀.scc.open_.length)
    { s with provisional := emplace s.provisional p result.diff, scc } s')

include settled

theorem Settled.config (opened : scc.open_ = s.scc.open_.take s₀.scc.open_.length)
    (roots : scc.rootIndex = s.scc.rootIndex.dropLast) :
    s'.config = s.config.finish s₀.scc.open_.length := by
  have closed : (fun c => s'.known.lookup c ≠ none) =
      fun c => s.known.lookup c ≠ none ∨ c ∈ s.scc.open_.drop s₀.scc.open_.length := by
    funext c
    rw [settled.known]
    split <;> simp [*]
  simp only [State.config, Scc.config, Config.finish, settled.scc, opened, roots, closed]

include progress

/-- A member of the closed component gets the verdict of its first comparison. -/
theorem Progress.settled_member {c : Comparison}
    (member : c ∈ s.scc.open_.drop s₀.scc.open_.length) :
    s'.known.lookup c = some result.equals := by
  have unknown := progress.inv.apart (List.mem_of_mem_drop member)
  rw [settled.known, if_pos member, unknown]
  rfl

theorem Progress.settled_cases {c : Comparison} {verdict : Bool}
    (known : s'.known.lookup c = some verdict) :
    c ∈ s.scc.open_.drop s₀.scc.open_.length ∧ result.equals = verdict ∨
      c ∉ s.scc.open_.drop s₀.scc.open_.length ∧ s.known.lookup c = some verdict := by
  by_cases member : c ∈ s.scc.open_.drop s₀.scc.open_.length
  · rw [progress.settled_member settled member] at known
    exact .inl ⟨member, Option.some.inj known⟩
  · rw [settled.known, if_neg member] at known
    exact .inr ⟨member, known⟩

/-- What was met stays met. -/
theorem Progress.settled_met (opened : scc.open_ = s.scc.open_.take s₀.scc.open_.length)
    {c : Comparison} (met : s.Met c) : s'.Met c := by
  rcases met with known | isOpen
  · obtain ⟨verdict, held⟩ := Option.ne_none_iff_exists'.mp known
    exact .inl (by simp [settled.keeps_known held])
  · rw [← List.take_append_drop s₀.scc.open_.length s.scc.open_, List.mem_append] at isOpen
    rcases isOpen with before | member
    · exact .inr (by rw [settled.scc, opened]; exact before)
    · exact .inl (by simp [progress.settled_member settled member])

include plans last

theorem Progress.settled_equal {c : Comparison} (known : s'.known.lookup c = some true) :
    ¬ LocalDifference graph options c ∧
      ∀ child, ChildEdge graph options c child → s'.known.lookup child = some true := by
  rcases progress.settled_cases settled known with ⟨member, equals⟩ | ⟨_, known⟩
  · have good := (progress.equals_iff plans).mp equals c member
    refine ⟨good.1, fun child edge => ?_⟩
    have linked := progress.examining.explored_drop (Progress.complete plans) c member child edge
    rcases progress.inv.walk.linked_segment last member linked with closed | segment
    · obtain ⟨verdict, held⟩ := Option.ne_none_iff_exists'.mp closed
      cases verdict with
      | true => exact settled.keeps_known held
      | false => exact absurd held (good.2 child edge)
    · rw [progress.settled_member settled segment, equals]
  · obtain ⟨clean, children⟩ := progress.inv.equal c known
    exact ⟨clean, fun child edge => settled.keeps_known (children child edge)⟩

theorem Progress.settled_unequal {c : Comparison} (known : s'.known.lookup c = some false) :
    ∃ d, ReflTransGen (ChildEdge graph options) c d ∧ LocalDifference graph options d := by
  rcases progress.settled_cases settled known with ⟨member, equals⟩ | ⟨_, known⟩
  · have bad : ∃ u ∈ s.scc.open_.drop s₀.scc.open_.length, ¬ s.Good graph options u := by
      by_contra none
      rw [not_exists] at none
      have good := (progress.equals_iff plans).mpr fun u member => by
        by_contra bad
        exact none u ⟨member, bad⟩
      rw [equals] at good
      cases good
    obtain ⟨u, memberU, bad⟩ := bad
    -- the whole component reaches the comparison that is not good
    have path := progress.inv.walk.mutual last member memberU
    by_cases different : LocalDifference graph options u
    · exact ⟨u, path, different⟩
    · obtain ⟨child, edge, held⟩ : ∃ child, ChildEdge graph options u child ∧
          s.known.lookup child = some false := by
        by_contra none
        refine bad ⟨different, fun child edge held => none ⟨child, edge, held⟩⟩
      obtain ⟨d, onward, different⟩ := progress.inv.unequal child held
      exact ⟨d, path.trans (.head edge onward), different⟩
  · exact progress.inv.unequal c known

omit last in
theorem Progress.settled_recorded {c : Comparison} {plan' : Plan}
    (known : s'.known.lookup c = some false) (plans' : Plans graph options c plan') :
    s'.outcomes.lookup c = some (plan'.diff s'.kept) := by
  have same : plan'.diff s.kept = plan'.diff s'.kept := by
    refine diffOf_congr fun step among child isChild => ?_
    have edge := plans'.childEdge.mpr (List.mem_filterMap.mpr ⟨step, among, isChild⟩)
    by_cases member : child ∈ s.scc.open_.drop s₀.scc.open_.length
    · have unequal : result.equals = false := by
        rcases progress.settled_cases settled known with ⟨_, equals⟩ | ⟨_, known⟩
        · exact equals
        · -- the children of a closed comparison are closed
          have closed := progress.inv.walk.closedEdge c child
            (by simp [State.config, Scc.config, known]) edge
          exact absurd closed (progress.inv.walk.apart child (List.mem_of_mem_drop member))
      have unknown := progress.inv.apart (List.mem_of_mem_drop member)
      simp [State.kept, progress.settled_member settled member, unequal, unknown]
    · simp [State.kept, settled.known, member]
  rcases progress.settled_cases settled known with ⟨member, equals⟩ | ⟨member, known⟩
  · have absent : s.outcomes.lookup c = none := by
      by_contra held
      obtain ⟨diff, held⟩ := Option.ne_none_iff_exists'.mp held
      have unknown := progress.inv.apart (List.mem_of_mem_drop member)
      rcases progress.inv.outcomes c diff held with different | ⟨_, _, _, _, _, step, _, side⟩
      · rw [unknown] at different; cases different
      · exact Step.not_planned_of_sided side plans'
    rw [settled.outcomes, if_pos ⟨member, equals⟩]
    change (s.outcomes.lookup c).or _ = _
    rw [absent, Option.none_or, ← same]
    exact (progress.stored plans member plan' plans').1
  · rw [settled.outcomes, if_neg fun both => member both.1, ← same]
    exact progress.inv.recorded c plan' known plans'

include valid opened roots

theorem Progress.settled_inv : s'.Inv graph options R := by
  have config := settled.config opened roots
  have walk : Walk (ChildEdge graph options) s'.config :=
    config ▸ progress.inv.walk.finish last
      (progress.examining.explored_drop (Progress.complete plans))
  have openBefore : ∀ c, c ∈ s'.scc.open_ → c ∈ s.scc.open_ := by
    intro c isOpen
    rw [settled.scc, opened] at isOpen
    exact List.mem_of_mem_take isOpen
  refine ⟨settled.scc ▸ valid, walk, ?_, ?_, ?_, ?_, ?_, ?_, ?_⟩
  · rintro c (known | isOpen)
    · obtain ⟨verdict, held⟩ := Option.ne_none_iff_exists'.mp known
      rcases progress.settled_cases settled held with ⟨member, _⟩ | ⟨_, known⟩
      · exact progress.inv.met c (.inr (List.mem_of_mem_drop member))
      · exact progress.inv.met c (.inl (by simp [known]))
    · exact progress.inv.met c (.inr (openBefore c isOpen))
  · exact fun c => progress.settled_equal plans last settled
  · exact fun c => progress.settled_unequal plans last settled
  · exact fun c plan' => progress.settled_recorded plans settled
  · intro c diff held
    by_cases member : c ∈ s.scc.open_.drop s₀.scc.open_.length ∧ result.equals = false
    · exact .inl (member.2 ▸ progress.settled_member settled member.1)
    · rw [settled.outcomes, if_neg member] at held
      rcases progress.inv.outcomes c diff held with known | ⟨empty, d, plan', met, rest⟩
      · exact .inl (settled.keeps_known known)
      · exact .inr ⟨empty, d, plan', progress.settled_met settled opened met, rest⟩
  · intro c plan' known plans' step among k side
    apply settled.keeps_outcomes
    obtain ⟨verdict, held⟩ := Option.ne_none_iff_exists'.mp known
    rcases progress.settled_cases settled held with ⟨member, _⟩ | ⟨_, known⟩
    · exact (progress.stored plans member plan' plans').2 step among k side
    · exact progress.inv.sided c plan' (by simp [known]) plans' step among k side
  · intro c held
    rw [settled.provisional] at held
    split at held
    · exact absurd rfl held
    rename_i member
    rw [settled.scc, opened]
    have isOpen : c ∈ s.scc.open_ := by
      by_cases same : c = p
      · subst same
        exact absurd ((progress.mem_segment c).mpr (.inl rfl)) member
      · rw [lookup_emplace_ne same] at held
        exact progress.inv.provisional c held
    rw [← List.take_append_drop s₀.scc.open_.length s.scc.open_, List.mem_append] at isOpen
    exact isOpen.resolve_right member

/-- `p` is the first of its component: all of it gets the verdict of `p`. -/
theorem Progress.settles :
    Called graph options R s₀ p (if result.equals then (true, none) else (false, some p)) s' := by
  have self : p ∈ s.scc.open_.drop s₀.scc.open_.length := (progress.mem_segment p).mpr (.inl rfl)
  have known := progress.settled_member settled self
  have whole : s'.scc.open_ = s₀.scc.open_ := by
    rw [settled.scc, opened]
    exact progress.examining.take
  have above : ∀ (i : Nat) (u : Comparison), s₀.scc.open_.length ≤ i →
      s'.scc.open_[i]? ≠ some u := by
    intro i u beyond at_
    rw [whole, List.getElem?_eq_none beyond] at at_
    cases at_
  refine ⟨progress.settled_inv plans last valid opened roots settled, ?_, ⟨?_, ?_, ?_, ?_⟩,
    ?_, ?_, ?_⟩
  · rw [settled.config opened roots]
    exact progress.examining.close (Progress.complete plans) last
  · rw [whole]
  · exact fun c verdict held =>
      settled.keeps_known (progress.later.known c verdict held)
  · exact fun c diff held =>
      settled.keeps_outcomes (progress.later.outcomes c diff held)
  · intro c before
    have notMember : c ∉ s.scc.open_.drop s₀.scc.open_.length := by
      intro member
      rw [← whole, settled.scc, opened] at before
      exact List.disjoint_take_drop progress.inv.valid.stacked.nodup (Nat.le_refl _) before member
    rw [settled.provisional, if_neg notMember]
    exact progress.provisional_before before
  · exact fun i u beyond at_ => absurd at_ (above i u beyond)
  · rw [known]
    cases result.equals <;> rfl
  · rw [known]
    constructor
    · intro equals
      refine ⟨?_, fun i u beyond at_ => absurd at_ (above i u beyond)⟩
      cases held : result.equals
      · rw [held] at equals; cases equals
      · simp
    · rintro ⟨equals, _⟩
      cases held : result.equals
      · exact absurd (congrArg some held) equals
      · rfl

end Root

/-- Closing always succeeds, and does what a call of `Compare` must do. -/
theorem Progress.conclude (progress : Progress graph options R s₀ p plan s plan.steps result)
    (plans : Plans graph options p plan) :
    ∃ answer s', Runs (fun _ => conclude p s₀.scc.open_.length result) s answer s' ∧
      Called graph options R s₀ p answer s' ∧ ∀ c, s.Met c → s'.Met c := by
  have self : s.scc.open_[s₀.scc.open_.length]? = some p := progress.examining.self
  have inside := (List.getElem?_eq_some_iff.mp self).1
  obtain ⟨root, last⟩ := progress.inv.valid.stacked.last
    (List.ne_nil_of_mem (List.mem_of_getElem? self))
  by_cases isRoot : root = s₀.scc.open_.length
  · subst isRoot
    obtain ⟨scc, closed, valid, opened, roots⟩ := progress.inv.valid.closeNode_root last
    have member : p ∈ s.scc.open_.drop s₀.scc.open_.length :=
      (progress.mem_segment p).mpr (.inl rfl)
    obtain ⟨s', ran, settled⟩ := conclude_root p result closed
      (List.ne_nil_of_mem member)
      (progress.inv.valid.stacked.nodup.sublist (List.drop_sublist _ _)) fun d among => by
        obtain ⟨_, plan', plans'⟩ := progress.inv.met d (.inr (List.mem_of_mem_drop among))
        rw [(progress.stored plans among plan' plans').1]
        exact Option.some_ne_none _
    exact ⟨_, s', ran, progress.settles plans last valid opened roots settled,
      fun _ => progress.settled_met settled opened⟩
  · exact ⟨_, _, conclude_stay (Scc.closeNode_other inside last isRoot),
      progress.stays plans last isRoot, fun _ met => met⟩

end Stg
