import Stg.Flat
import Stg.Follows

set_option autoImplicit false

/- The small report: everything that changed is in it, and nothing that does not lead to
a change. -/
namespace Stg

open Relation (ReflTransGen TransGen)

variable {graph : Graph} {outcomes : Outcomes} {fuel : Nat} {c d : Comparison}

section Queue

variable {queue queue' : Queue} {full : Bool} {ample : Prop}

/-- What the section of a queued comparison has in it. -/
structure Section.Covers (graph : Graph) (outcomes : Outcomes) (full : Bool) (part : Section)
    (queue' : Queue) : Prop where
  border : ∀ d e, ReflTransGen outcomes.Inner part.comparison d → outcomes.Edge d e →
    outcomes.Holder e → e ∈ queue'.seen
  described : ∀ d, ReflTransGen outcomes.Inner part.comparison d →
    full = true ∨ outcomes.Changed d → Described graph outcomes part.pieces d
  lines : ∀ d content, .comparison d content ∈ part.pieces → full = true ∨ outcomes.Leads d
  ends : Acc (fun b a => outcomes.Inner a b) part.comparison

theorem Section.Covers.of_printed {out : Bool × List Piece}
    (printed : Printed graph outcomes full c queue out queue') :
    (makeSection full c out).Covers graph outcomes full queue' where
  border := printed.border
  described d path changed := by
    have kept := (emits_makeSection full c).kept (printed.keeps path changed)
    exact (printed.described d path changed).mono kept
  lines d content present := by
    obtain ⟨interesting | all, among⟩ := (emits_makeSection full c).lines d content present
    · rcases printed.lines d content among with rfl | leads
      · exact .inr (printed.interesting.mp interesting)
      · exact leads
    · exact .inl all
  ends := printed.ends

theorem Section.Covers.later {part : Section} (covers : part.Covers graph outcomes full queue)
    (later : ∀ d ∈ queue.seen, d ∈ queue'.seen) : part.Covers graph outcomes full queue' where
  border d e path edge holder := later e (covers.border d e path edge holder)
  described := covers.described
  lines := covers.lines
  ends := covers.ends

theorem Outcomes.Holder.mem_keys (holder : outcomes.Holder c) : c ∈ outcomes.keys := by
  obtain ⟨diff, held, _⟩ := holder
  exact AList.mem_keys.mp (AList.lookup_isSome.mp (by simp [held]))

/-- Everything that was ever queued is different and has an entry. -/
structure Queue.Proper (outcomes : Outcomes) (queue : Queue) : Prop where
  nodup : queue.seen.Nodup
  holders : ∀ d ∈ queue.seen, outcomes.Holder d
  todo : ∀ d ∈ queue.todo, d ∈ queue.seen

theorem Queue.Proper.length_le (proper : queue.Proper outcomes) :
    queue.seen.length ≤ outcomes.keys.length := by
  have inside : queue.seen ⊆ outcomes.keys := fun d among => (proper.holders d among).mem_keys
  exact (List.subperm_of_subset proper.nodup inside).length_le

theorem Queue.Proper.extend (proper : queue.Proper outcomes)
    (extends_ : queue.Extends outcomes queue') : queue'.Proper outcomes := by
  obtain ⟨new, seen, todo, nodup, holders⟩ := extends_
  refine ⟨nodup proper.nodup, ?_, ?_⟩
  · rw [seen]
    exact List.forall_mem_append.mpr ⟨proper.holders, holders⟩
  · rw [todo, seen]
    intro d among
    rcases List.mem_append.mp among with among | among
    · exact List.mem_append_left _ (proper.todo d among)
    · exact List.mem_append_right _ among

/-- The loop prints every comparison that is or comes to be queued, once each. -/
theorem flatQueue_does {print : Comparison → FlatM (Bool × List Piece)}
    (prints : ∀ c queue, outcomes.Holder c →
      Does graph ample (print c) queue (Printed graph outcomes full c queue))
    (queue : Queue) (proper : queue.Proper outcomes)
    (plenty : ample → queue.todo.length + (outcomes.keys.length - queue.seen.length) < fuel) :
    Does graph ample (flatQueue print full fuel) queue fun parts queue' => queue'.Proper outcomes ∧
      (∃ new, queue'.seen = queue.seen ++ new ∧
        parts.map Section.comparison = queue.todo ++ new) ∧
      ∀ part ∈ parts, part.Covers graph outcomes full queue' := by
  induction fuel generalizing queue with
  | zero => exact Does.spent fun isAmple => absurd (plenty isAmple) (Nat.not_lt_zero _)
  | succ fuel ih =>
    rw [flatQueue]
    refine Does.bind Does.get ?_
    rintro _ _ ⟨rfl, rfl⟩
    rename_i queue
    cases held : queue.todo with
    | nil => exact Does.pure ⟨proper, ⟨[], by simp⟩, nofun⟩
    | cons c todo =>
      have popped : Does graph ample (modify fun queue => { queue with todo } : FlatM PUnit) queue
          fun _ queue' => queue' = { queue with todo } := Does.modify rfl
      refine Does.bind popped ?_
      rintro _ _ rfl
      have proper₁ : Queue.Proper outcomes { queue with todo } :=
        ⟨proper.nodup, proper.holders, fun d among => proper.todo d (by simp [held, among])⟩
      have holder := proper.holders c (proper.todo c (by simp [held]))
      refine Does.bind (prints c _ holder) fun out queue₂ printed => ?_
      have proper₂ := proper₁.extend printed.extends_
      have fits := proper₂.length_le
      obtain ⟨new, seen, todo', _⟩ := printed.extends_
      have left : ample →
          queue₂.todo.length + (outcomes.keys.length - queue₂.seen.length) < fuel := by
        intro isAmple
        have more := plenty isAmple
        simp only [seen, todo', held, List.length_append, List.length_cons] at more fits ⊢
        omega
      refine Does.bind (ih queue₂ proper₂ left) fun parts queue₃ post => Does.pure ?_
      obtain ⟨proper₃, ⟨more, seen₃, comparisons⟩, covers⟩ := post
      refine ⟨proper₃, ⟨new ++ more, ?_, ?_⟩, ?_⟩
      · rw [seen₃, seen, List.append_assoc]
      · rw [List.map_cons, comparisons, todo', List.append_assoc]
        rfl
      · refine List.forall_mem_cons.mpr ⟨?_, covers⟩
        refine (Section.Covers.of_printed printed).later fun d among => ?_
        rw [seen₃]
        exact List.mem_append_left _ among

end Queue

section Report

variable {root : Comparison} {full : Bool} {report : FlatReport} {queue : Queue}

theorem Outcomes.Closed.through_mem (closed : outcomes.Closed) (through : outcomes.Through c d) :
    d ∈ outcomes.keys.toFinset :=
  Outcomes.mem_keys_of_present (closed.present through.1.1)

/-- The whole report: the sections below the root and those of the queue. -/
structure FlatReport.Covers (graph : Graph) (outcomes : Outcomes) (full : Bool) (root : Comparison)
    (report : FlatReport) (queue : Queue) : Prop where
  proper : queue.Proper outcomes
  queued : report.queued.map Section.comparison = queue.seen
  roots : ∀ diff, outcomes.lookup root = some diff →
    Stg.Covers graph outcomes full diff.edges (report.roots.flatMap Section.pieces) queue
  sections : ∀ part ∈ report.queued, part.Covers graph outcomes full queue

/-- The report covers the differences, if it is completed; and it is where every cycle
passes a comparison that holds changes. -/
theorem reportFlat_does (full : Bool) {ample : Prop} (sound : outcomes.Sound graph)
    (nameable : outcomes.Nameable graph) (cycles : ample → outcomes.CyclesHold) {diff : Diff}
    (held : outcomes.lookup root = some diff)
    (rooted : ∀ detail ∈ diff.details, detail.edge ≠ none) :
    ∃ enough, ∀ fuel, (ample → enough ≤ fuel) →
      Does graph ample (reportFlat graph outcomes full fuel root) {}
        (FlatReport.Covers graph outcomes full root) := by
  obtain ⟨enough, names⟩ := nameable
  obtain ⟨rank, falls, bounded⟩ : ∃ rank : Comparison → Nat,
      (ample → ∀ c d, outcomes.Through c d → rank d < rank c) ∧
        ∀ c, rank c ≤ outcomes.keys.toFinset.card := by
    by_cases isAmple : ample
    · obtain ⟨rank, falls, bounded⟩ := Reach.exists_rank outcomes.keys.toFinset
        (fun _ _ => sound.closed.through_mem) (cycles isAmple)
      exact ⟨rank, fun _ => falls, bounded⟩
    · exact ⟨fun _ => 0, fun holds => absurd holds isAmple, fun _ => Nat.zero_le _⟩
  let bound := outcomes.keys.toFinset.card
  refine ⟨enough + bound + outcomes.keys.length + 3, fun fuel more => ?_⟩
  have visits : ∀ c stop queue, outcomes.lookup c ≠ none → (¬ outcomes.Holder c → stop = true) →
      Does graph ample (flatPrint graph outcomes full fuel c stop 0) queue
        (Visit graph outcomes full c stop queue) := by
    intro c stop queue present passing
    refine flatPrint_does sound names falls bounded present stop passing (bound + 2)
      (fun isAmple => ?_) 0 queue
    have below := bounded c
    have most := more isAmple
    exact ⟨by omega, fun _ _ => by omega, fun _ => by omega⟩
  unfold reportFlat
  rw [held]
  have roots : Does graph ample
      (flatRoots (fun edge => flatPrint graph outcomes full fuel edge true 0) full diff.details) {}
      fun roots queue' => Queue.Extends outcomes {} queue' ∧
        Stg.Covers graph outcomes full diff.edges (roots.flatMap Section.pieces) queue' := by
    refine flatRoots_does rooted (fun e among queue => ?_) {}
    exact visits e true queue (sound.closed.present ⟨diff, held, among⟩) fun _ => rfl
  refine Does.bind roots fun roots queue₁ post₁ => ?_
  have start : Queue.Proper outcomes {} := ⟨List.nodup_nil, nofun, nofun⟩
  have proper := start.extend post₁.1
  obtain ⟨new, seen, todo, _⟩ := post₁.1
  have fits := proper.length_le
  have sections : ∀ c queue, outcomes.Holder c → Does graph ample
      (flatPrint graph outcomes full fuel c false 0) queue
        (Printed graph outcomes full c queue) := by
    intro c queue holder
    have present : outcomes.lookup c ≠ none := by
      obtain ⟨_, isEntry, _⟩ := holder
      simp [isEntry]
    have visited := visits c false queue present fun inner => absurd holder inner
    refine visited.imp fun out queue' visit => ?_
    cases visit with
    | queued _ cut => cases cut
    | printed _ printed => exact printed
  have left : ample →
      queue₁.todo.length + (outcomes.keys.length - queue₁.seen.length) < fuel := by
    intro isAmple
    have most := more isAmple
    simp only [seen, todo, List.nil_append] at fits ⊢
    omega
  have queued := flatQueue_does sections queue₁ proper left
  refine Does.bind queued fun parts queue₂ post₂ => Does.pure ?_
  obtain ⟨proper₂, ⟨more, seen₂, comparisons⟩, covers⟩ := post₂
  refine ⟨proper₂, ?_, ?_, covers⟩
  · rw [comparisons, seen₂, seen, todo]
  · intro diff' held'
    cases held.symm.trans held'
    have later : ∀ d ∈ queue₁.seen, d ∈ queue₂.seen := by
      intro d among
      rw [seen₂]
      exact List.mem_append_left _ among
    exact { post₁.2 with
      holders := fun e among holder => later e (post₁.2.holders e among holder)
      border := fun e among inner d f path edge holder =>
        later f (post₁.2.border e among inner d f path edge holder) }

namespace FlatReport.Covers

variable (covers : report.Covers graph outcomes full root queue)

include covers

theorem section_of_seen (among : c ∈ queue.seen) : ∃ part ∈ report.queued, part.comparison = c := by
  rw [← covers.queued] at among
  exact List.mem_map.mp among

/-- What the root leads to belongs to a section below it or of the queue. -/
theorem reached (path : TransGen outcomes.Edge root d) :
    (∃ e, outcomes.Edge root e ∧ ¬ outcomes.Holder e ∧ ReflTransGen outcomes.Inner e d) ∨
    ∃ part ∈ report.queued, ReflTransGen outcomes.Inner part.comparison d := by
  have queued : ∀ f ∈ queue.seen, ∃ part ∈ report.queued,
      ReflTransGen outcomes.Inner part.comparison f := by
    intro f among
    obtain ⟨part, isPart, rfl⟩ := covers.section_of_seen among
    exact ⟨part, isPart, .refl⟩
  induction path with
  | @single f edge =>
    by_cases holder : outcomes.Holder f
    · obtain ⟨diff, held, among⟩ := edge
      exact .inr (queued f ((covers.roots diff held).holders f among holder))
    · exact .inl ⟨f, edge, holder, .refl⟩
  | @tail d f _ edge ih =>
    by_cases holder : outcomes.Holder f
    · right
      apply queued
      rcases ih with ⟨e, ⟨diff, held, among⟩, inner, path⟩ | ⟨part, isPart, path⟩
      · exact (covers.roots diff held).border e among inner d f path edge holder
      · exact (covers.sections part isPart).border d f path edge holder
    · rcases ih with ⟨e, first, inner, path⟩ | ⟨part, isPart, path⟩
      · exact .inl ⟨e, first, inner, path.tail ⟨edge, holder⟩⟩
      · exact .inr ⟨part, isPart, path.tail ⟨edge, holder⟩⟩

/-- Everything that the root leads to is described, or at least what changed. -/
theorem described (path : TransGen outcomes.Edge root d)
    (changed : full = true ∨ outcomes.Changed d) : Described graph outcomes report.pieces d := by
  have whole : report.pieces = report.roots.flatMap Section.pieces ++
      report.queued.flatMap Section.pieces := List.flatMap_append
  rw [whole]
  rcases covers.reached path with ⟨e, ⟨diff, held, among⟩, inner, path⟩ | ⟨part, isPart, path⟩
  · exact ((covers.roots diff held).described e among inner d path changed).mono
      (List.sublist_append_left _ _)
  · have own := (covers.sections part isPart).described d path changed
    have among : List.Sublist part.pieces (report.queued.flatMap Section.pieces) := by
      rw [List.flatMap_def]
      exact List.sublist_flatten_of_mem (List.mem_map_of_mem isPart)
    exact own.mono (among.trans (List.sublist_append_right _ _))

/-- Every line is about a change or leads to one, if not all is kept. -/
theorem lines (set : outcomes.lookup root ≠ none) {content : String}
    (present : .comparison d content ∈ report.pieces) : full = true ∨ outcomes.Leads d := by
  obtain ⟨diff, held⟩ := Option.ne_none_iff_exists'.mp set
  rw [FlatReport.pieces, List.flatMap_append] at present
  rcases List.mem_append.mp present with present | present
  · exact (covers.roots diff held).lines d content present
  · obtain ⟨part, isPart, among⟩ := List.mem_flatMap.mp present
    exact (covers.sections part isPart).lines d content among

end FlatReport.Covers

theorem Described.render_ne_empty {pieces : List Piece}
    (described : Described graph outcomes pieces c) :
    render pieces ≠ "" := by
  obtain ⟨content, indent, written, sub⟩ := described
  have present := sub.subset List.mem_cons_self
  unfold render
  intro empty
  have each : ∀ texts : List String, String.join texts = "" → ∀ text ∈ texts, text = "" := by
    intro texts
    induction texts with
    | nil => exact fun _ => nofun
    | cons text texts ih =>
      intro joined
      rw [String.join_cons, String.append_eq_empty_iff] at joined
      exact List.forall_mem_cons.mpr ⟨joined.1, ih joined.2⟩
  exact written.ne_empty (each _ empty _ (List.mem_map_of_mem present))

end Report

section Compare

variable {options : CompareOptions} {R : Comparison → Prop} {s : State} {plan : Plan}

theorem Plans.within (references : graph.ReferencesSet) (resolves : graph.Resolves)
    (plans : Plans graph options c plan) : ∀ step ∈ plan.steps, step.Within graph.Is graph.Is := by
  obtain ⟨node1, node2, set1, set2, rfl⟩ := plans.set
  obtain ⟨enough, within⟩ := resolves.within
  obtain ⟨plan', planned, inside⟩ := planOf_total options references
    (within enough (Nat.le_refl _)) set1 set2
  cases plans.unique ⟨node1, node2, enough, rfl, planned⟩
  exact inside

/-- The entry of a node on one side only is empty. -/
theorem State.Inv.outcomes_sided (inv : s.Inv graph options R) (c : Comparison) (diff : Diff)
    (oneSided : OneSided c) (held : s.outcomes.lookup c = some diff) : diff = {} := by
  rcases inv.outcomes c diff held with unequal | ⟨same, _⟩
  · obtain ⟨plan, plans⟩ := inv.has_plan (c := c) (by simp [unequal])
    obtain ⟨node1, node2, _, _, rfl⟩ := plans.set
    simp [OneSided] at oneSided
  · exact same

theorem State.Inv.outcomes_sound (inv : s.Inv graph options R) (references : graph.ReferencesSet)
    (resolves : graph.Resolves) : s.outcomes.Sound graph where
  closed := inv.outcomes_closed
  sided := inv.outcomes_sided
  compares c present := by
    obtain ⟨diff, held⟩ := Option.ne_none_iff_exists'.mp present
    rcases inv.outcomes c diff held with unequal | ⟨_, d, plan, _, plans, step, among, sided⟩
    · obtain ⟨plan, plans⟩ := inv.has_plan (c := c) (by simp [unequal])
      obtain ⟨node1, node2, set1, set2, rfl⟩ := plans.set
      exact .both set1 set2
    · have inside := plans.within references resolves step among
      cases step with
      | removed => cases sided; exact .removed inside
      | added => cases sided; exact .added inside
      | _ => cases sided

/-- Only unequal comparisons reach a difference. -/
theorem State.Inv.unequal_of_reaches (inv : s.Inv graph options R) (known : s.known.lookup c ≠ none)
    (path : ReflTransGen (ChildEdge graph options) c d)
    (differs : LocalDifference graph options d) :
    s.known.lookup c = some false := by
  obtain ⟨verdict, held⟩ := Option.ne_none_iff_exists'.mp known
  cases verdict with
  | false => exact held
  | true => exact absurd differs ((inv.verdict_iff held).mp rfl d path)

/-- The edges of an unequal comparison are those to nodes on one side and to unequal children. -/
theorem State.Inv.edge_of_step (inv : s.Inv graph options R)
    (unequal : s.known.lookup c = some false)
    (plans : Plans graph options c plan) {request : Request} (requested : request ∈ plan.requests)
    (differs : request.differs s.known = true) : s.outcomes.Edge c request.comparison := by
  have held := inv.recorded c plan unequal plans
  refine ⟨_, held, ?_⟩
  rw [inv.edges_exact unequal held (requests_iff.mpr ⟨plan, plans, rfl⟩)]
  exact List.mem_map_of_mem (List.mem_filter.mpr ⟨requested, differs⟩)

theorem State.Inv.changed_of_difference (inv : s.Inv graph options R)
    (unequal : s.known.lookup c = some false) (differs : LocalDifference graph options c) :
    ∃ d, ReflTransGen s.outcomes.Edge c d ∧ s.outcomes.Changed d := by
  obtain ⟨plan, plans⟩ := inv.has_plan (c := c) (by simp [unequal])
  rw [plans.localDifference] at differs
  obtain ⟨step, among, unclean⟩ : ∃ step ∈ plan.steps, step.clean = false := by
    simpa [Plan.clean] using differs
  have own : step.isChange = true → ∃ d, ReflTransGen s.outcomes.Edge c d ∧
      s.outcomes.Changed d := by
    intro isChange
    refine ⟨c, .refl, .inr ⟨_, inv.recorded c plan unequal plans, ?_⟩⟩
    exact List.any_eq_true.mpr ⟨step, among, isChange⟩
  cases step with
  | note => exact own rfl
  | incomparable => exact own rfl
  | compare => cases unclean
  | removed text node =>
    have requested : Request.removed node ∈ plan.requests := List.mem_filterMap.mpr ⟨_, among, rfl⟩
    exact ⟨_, .single (inv.edge_of_step unequal plans requested rfl), .inl (.inr rfl)⟩
  | added text node =>
    have requested : Request.added node ∈ plan.requests := List.mem_filterMap.mpr ⟨_, among, rfl⟩
    exact ⟨_, .single (inv.edge_of_step unequal plans requested rfl), .inl (.inl rfl)⟩

/-- From every unequal comparison the recorded edges lead to a change. -/
theorem State.Inv.reaches_change (inv : s.Inv graph options R)
    (unequal : s.known.lookup c = some false) :
    ∃ d, ReflTransGen s.outcomes.Edge c d ∧ s.outcomes.Changed d := by
  obtain ⟨d, path, differs⟩ := inv.unequal c unequal
  induction path using ReflTransGen.head_induction_on with
  | refl => exact inv.changed_of_difference unequal differs
  | @head c e edge rest ih =>
    have known := inv.known_reachable (by simp [unequal]) (.single edge)
    have unequal' := inv.unequal_of_reaches known rest differs
    obtain ⟨f, path, changed⟩ := ih unequal'
    obtain ⟨plan, plans⟩ := inv.has_plan (c := c) (by simp [unequal])
    obtain ⟨node1, node2, requested, rfl⟩ := mem_children.mp (plans.childEdge.mp edge)
    have first := inv.edge_of_step unequal plans requested (by simp [Request.differs, unequal'])
    exact ⟨f, .head first path, changed⟩

theorem plans_symbols (options : CompareOptions) {root1 root2 : Id} {symbols1 symbols2 : Symbols}
    (got1 : graph.get root1 = .ok (.symbols symbols1))
    (got2 : graph.get root2 = .ok (.symbols symbols2)) :
    Plans graph options (some root1, some root2) (symbols1.plan symbols2) := by
  have settled1 : graph.Settled root1 (.symbols symbols1) := ⟨got1, nofun, nofun⟩
  have settled2 : graph.Settled root2 (.symbols symbols2) := ⟨got2, nofun, nofun⟩
  exact (plans_iff_of_settled settled1 settled2).mpr (.inr ⟨rfl, 0, rfl⟩)

/-- The entry of two different symbol tables: only edges, and no change of its own. -/
theorem State.Inv.symbols_entry (inv : s.Inv graph options R) {root1 root2 : Id}
    {symbols1 symbols2 : Symbols} (got1 : graph.get root1 = .ok (.symbols symbols1))
    (got2 : graph.get root2 = .ok (.symbols symbols2))
    (unequal : s.known.lookup (some root1, some root2) = some false) :
    ∃ diff, s.outcomes.lookup (some root1, some root2) = some diff ∧
      (∀ detail ∈ diff.details, detail.edge ≠ none) ∧
      ¬ s.outcomes.Changed (some root1, some root2) := by
  have plans := plans_symbols options got1 got2
  have held := inv.recorded _ _ unequal plans
  have sided : ∀ step ∈ (symbols1.plan symbols2).steps, ∃ request, step.request = some request := by
    intro step present
    simp only [Symbols.plan, List.mem_append, List.mem_map] at present
    rcases present with (⟨symbol, _, rfl⟩ | ⟨symbol, _, rfl⟩) | ⟨symbol, _, rfl⟩ <;> exact ⟨_, rfl⟩
  refine ⟨_, held, ?_, ?_⟩
  · intro detail present
    obtain ⟨step, among, makes⟩ := List.mem_filterMap.mp present
    obtain ⟨request, requested⟩ := sided step among
    cases step with
    | note | incomparable => cases requested
    | removed | added => cases makes; simp
    | compare =>
      simp only [Step.detail, Option.ite_none_right_eq_some] at makes
      cases makes.2
      simp
  · rintro (oneSided | ⟨diff, held', changed⟩)
    · simp [OneSided] at oneSided
    · cases held.symm.trans held'
      obtain ⟨step, among, isChange⟩ := List.any_eq_true.mp changed
      obtain ⟨request, requested⟩ := sided step among
      cases step with
      | note | incomparable => cases requested
      | removed | added | compare => cases isChange

/-- The small report on two different symbol tables is complete: everything that changed
and can be reached is described, and no line is written but those that lead to a change. -/
theorem small_report_complete (nameable : graph.Nameable) (options : CompareOptions)
    {root1 root2 : Id} {symbols1 symbols2 : Symbols}
    (got1 : graph.get root1 = .ok (.symbols symbols1))
    (got2 : graph.get root2 = .ok (.symbols symbols2)) {fuel : Nat} {comparison : Option Comparison}
    (ran : runCompare graph options fuel {} root1 root2 = .ok ((false, comparison), s))
    (cycles : s.outcomes.CyclesHold) {names : NameCache} (sound : names.Sound graph) :
    ∃ root, comparison = some root ∧ ∃ enough, ∀ fuel, enough ≤ fuel → ∃ report queue names',
      ((reportFlat graph s.outcomes false fuel root).run {}).run names =
        .ok ((report, queue), names') ∧
      NameCache.Sound graph names' ∧ render report.pieces ≠ "" ∧
      (∀ d, ReflTransGen s.outcomes.Edge root d → s.outcomes.Changed d →
        Described graph s.outcomes report.pieces d) ∧
      (report.queued.map Section.comparison).Nodup ∧
      (∀ part ∈ report.queued, s.outcomes.Holder part.comparison) ∧
      ∀ d content, .comparison d content ∈ report.pieces → s.outcomes.Leads d := by
  obtain ⟨inv, _, verdict, known, answered⟩ := runCompare_fresh ran
  obtain rfl : false = verdict := congrArg Prod.fst answered
  obtain rfl : comparison = some (some root1, some root2) := congrArg Prod.snd answered
  refine ⟨_, rfl, ?_⟩
  have outcomesSound := inv.outcomes_sound nameable.references nameable.resolves
  obtain ⟨diff, held, rooted, unchanged⟩ := inv.symbols_entry got1 got2 known
  obtain ⟨change, path, changed⟩ := inv.reaches_change known
  obtain ⟨enough, does⟩ := reportFlat_does false outcomesSound
    (outcomesSound.nameable nameable) (fun _ => cycles) held rooted
  refine ⟨enough, fun fuel more => ?_⟩
  obtain ⟨report, queue, names', reported, sound', covers⟩ :=
    (does fuel fun _ => more).returns sound
  have described : ∀ d, ReflTransGen s.outcomes.Edge (some root1, some root2) d →
      s.outcomes.Changed d →
      Described graph s.outcomes report.pieces d := by
    intro d path changed
    rcases Relation.reflTransGen_iff_eq_or_transGen.mp path with rfl | path
    · exact absurd changed unchanged
    · exact covers.described path (.inr changed)
  refine ⟨report, queue, names', reported, sound', (described change path changed).render_ne_empty,
    described, ?_, ?_, ?_⟩
  · rw [covers.queued]
    exact covers.proper.nodup
  · intro part isPart
    apply covers.proper.holders
    rw [← covers.queued]
    exact List.mem_map_of_mem isPart
  · intro d content present
    exact (covers.lines (by simp [held]) present).resolve_left nofun

end Compare

section Examples

theorem cyclesHold_of_entries
    (each : ∀ entry ∈ outcomes.entries, entry.2.holdsChanges = true ∨ entry.2.edges = []) :
    outcomes.CyclesHold := by
  intro c cycle
  obtain ⟨b, _, last⟩ : ∃ b, ReflTransGen outcomes.Through c b ∧ outcomes.Through b c :=
    TransGen.tail'_iff.mp cycle
  obtain ⟨⟨⟨diff, held, among⟩, _⟩, unheld⟩ := last
  have present : ⟨b, diff⟩ ∈ outcomes.entries := AList.mem_lookup_iff.mp held
  rcases each _ present with holds | none_
  · exact unheld ⟨diff, held, holds⟩
  · simp [none_] at among

/-- A symbol table with one function and one without; the nodes of its type come last. -/
def removedFunction (type : List (Option Node)) : Graph where
  nodes := [
    some (.symbols ⟨[(⟨"", "f"⟩, ⟨2⟩)], List.pairwise_singleton _ _⟩),
    some (.symbols ⟨[], .nil⟩),
    some (.elfSymbol ⟨"f", none, true, .function, .global, .default, none, some ⟨3⟩, none⟩)] ++ type

theorem removedFunction_differs (type : List (Option Node)) :
    ∃ s, runCompare (removedFunction type) {} 5 {} ⟨0⟩ ⟨1⟩ =
        .ok ((false, some (some ⟨0⟩, some ⟨1⟩)), s) ∧
      s.outcomes.CyclesHold ∧
      s.outcomes.lookup (some ⟨0⟩, some ⟨1⟩) =
        some { holdsChanges := true, details := [⟨"", some (some ⟨2⟩, none)⟩] } := by
  refine ⟨_, rfl, cyclesHold_of_entries fun entry present => ?_, rfl⟩
  rcases List.mem_cons.mp present with rfl | present
  · exact .inl rfl
  · rcases List.mem_cons.mp present with rfl | present
    · exact .inr rfl
    · cases present

def void : List (Option Node) := [some .void]

theorem removedFunction_is {id : Id} (set : (removedFunction void).Is id) :
    id = ⟨0⟩ ∨ id = ⟨1⟩ ∨ id = ⟨2⟩ ∨ id = ⟨3⟩ := by
  have inside := set.lt
  obtain ⟨ix⟩ := id
  simp only [removedFunction, void, List.length_append, List.length_cons, List.length_nil,
    Id.mk.injEq] at inside ⊢
  omega

theorem removedFunction_resolves : (removedFunction void).Resolves := by
  refine ⟨fun id set => ⟨1, ?_⟩, fun id set => ⟨1, ?_⟩, fun id set => ⟨1, ?_⟩⟩
  all_goals
    rcases removedFunction_is set with rfl | rfl | rfl | rfl
    all_goals exact ⟨_, rfl⟩

theorem removedFunction_nameable : (removedFunction void).Nameable := by
  refine ⟨fun id node got => ?_, removedFunction_resolves, fun id node _ _ _ _ got => ?_⟩
  · rcases removedFunction_is ⟨node, got⟩ with rfl | rfl | rfl | rfl
    all_goals
      cases got
      simp [Node.references, Graph.Is, Graph.get, removedFunction, void]
  · rcases removedFunction_is ⟨_, got⟩ with rfl | rfl | rfl | rfl
    all_goals cases got

theorem small_report_complete_removed : ∃ (s : State) (enough : Nat), ∀ fuel, enough ≤ fuel →
    ∃ report queue names',
      ((reportFlat (removedFunction void) s.outcomes false fuel (some ⟨0⟩, some ⟨1⟩)).run {}).run ∅ =
        .ok ((report, queue), names') ∧ render report.pieces ≠ "" := by
  obtain ⟨s, ran, cycles, _⟩ := removedFunction_differs void
  have unnamed : NameCache.Sound (removedFunction void) ∅ := nofun
  obtain ⟨_, same, enough, does⟩ :=
    small_report_complete removedFunction_nameable {} rfl rfl ran cycles unnamed
  cases same
  refine ⟨s, enough, fun fuel more => ?_⟩
  obtain ⟨report, queue, names', reported, _, written, _⟩ := does fuel more
  exact ⟨report, queue, names', reported, written⟩

/-- The comparison finds a difference, but no report is written. -/
def Unreported (graph : Graph) : Prop :=
  ∃ fuel s, runCompare graph {} fuel {} ⟨0⟩ ⟨1⟩ = .ok ((false, some (some ⟨0⟩, some ⟨1⟩)), s) ∧
    s.outcomes.CyclesHold ∧ ∀ fuel report,
      ((reportFlat graph s.outcomes false fuel (some ⟨0⟩, some ⟨1⟩)).run {}).run ∅ ≠ .ok report

/-- The names after the two symbol tables have been described. -/
def symbolsNamed : NameCache :=
  ((((∅ : NameCache).insert ⟨0⟩ blackHole).insert ⟨0⟩ { left := "symbols" }).insert ⟨1⟩
    blackHole).insert ⟨1⟩ { left := "symbols" }

/-- The removed function cannot be named, neither first nor after the symbol tables. -/
def Unnamed (type : List (Option Node)) : Prop :=
  ∀ names, names = ∅ ∨ names = symbolsNamed → ∀ fuel out,
    (getDescription (removedFunction type) fuel ⟨2⟩).run names ≠ .ok out

/-- The flat report names the symbol that was removed. -/
theorem reportFlat_unnamed {type : List (Option Node)} (unnamed : Unnamed type)
    (held : outcomes.lookup (some ⟨0⟩, some ⟨1⟩) =
      some { holdsChanges := true, details := [⟨"", some (some ⟨2⟩, none)⟩] })
    (full : Bool) (fuel : Nat) (report : (FlatReport × Queue) × NameCache) :
    ((reportFlat (removedFunction type) outcomes full fuel (some ⟨0⟩, some ⟨1⟩)).run {}).run ∅ ≠
      .ok report := by
  intro reported
  unfold reportFlat at reported
  rw [held] at reported
  obtain ⟨_, roots, _⟩ := bind_eq_ok reported
  obtain ⟨_, printed, _⟩ := bind_eq_ok roots
  cases fuel with
  | zero => cases printed
  | succ fuel =>
    obtain ⟨_, written, _⟩ := bind_eq_ok printed
    obtain ⟨_, compared, _⟩ := bind_eq_ok written
    obtain ⟨_, named, _⟩ := bind_eq_ok compared
    exact unnamed ∅ (.inl rfl) fuel _ named

theorem unreported_of_unnamed {type : List (Option Node)} (unnamed : Unnamed type) :
    Unreported (removedFunction type) := by
  obtain ⟨s, ran, cycles, held⟩ := removedFunction_differs type
  exact ⟨5, s, ran, cycles, reportFlat_unnamed unnamed held false⟩

/-- A qualified member. -/
def constMember : List (Option Node) := [
  some (.qualified ⟨.const, ⟨4⟩⟩), some (.member ⟨"m", ⟨5⟩, 0, 0⟩),
  some (.integer ⟨"int", .signedInteger, 32, 4⟩)]

/-- A qualified type that is the type it qualifies. -/
def constItself : List (Option Node) := [some (.qualified ⟨.const, ⟨3⟩⟩)]

theorem constMember_unnamed : Unnamed constMember := by
  -- enough fuel for the two names and the qualifiers in between, and it throws
  rintro names (rfl | rfl) fuel out named
  all_goals obtain _ | _ | _ | _ | _ | fuel := fuel <;> cases named

theorem constItself_spins (fuel : Nat) (qualifiers : Qualifiers) (out : Id × Qualifiers) :
    resolveQualifiers (removedFunction constItself) fuel ⟨3⟩ qualifiers ≠ .ok out := by
  intro found
  induction fuel generalizing qualifiers with
  | zero => cases found
  | succ fuel ih => exact ih _ found

theorem constItself_unnamed : Unnamed constItself := by
  rintro names (rfl | rfl) fuel out named
  all_goals
    obtain _ | _ | fuel := fuel
    · cases named
    · cases named
    · obtain ⟨_, made, _⟩ := bind_eq_ok named
      obtain ⟨_, typed, _⟩ := bind_eq_ok made
      obtain ⟨_, made, _⟩ := bind_eq_ok typed
      obtain ⟨_, resolved, _⟩ := bind_eq_ok made
      change (ofExcept (resolveQualifiers (removedFunction constItself) fuel ⟨3⟩ {.const}) :
        NameM _) _ = _ at resolved
      cases found : resolveQualifiers (removedFunction constItself) fuel ⟨3⟩ {.const} with
      | ok out => exact constItself_spins fuel _ out found
      | error reason =>
        rw [found] at resolved
        cases resolved

theorem missing_unnamed : Unnamed [] := by
  rintro names (rfl | rfl) fuel out named
  all_goals obtain _ | _ | fuel := fuel <;> cases named

/-- There are differences without a report: of a function with a qualified member, one
with a type that qualifies itself and one with no type at its id. -/
theorem small_report_missing : Unreported (removedFunction constMember) ∧
    Unreported (removedFunction constItself) ∧ Unreported (removedFunction []) :=
  ⟨unreported_of_unnamed constMember_unnamed, unreported_of_unnamed constItself_unnamed,
    unreported_of_unnamed missing_unnamed⟩

end Examples

end Stg
