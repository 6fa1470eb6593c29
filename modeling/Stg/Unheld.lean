import Mathlib.Tactic.FinCases
import Stg.Completed
import Stg.Coverage
import Stg.Lib.Cycle

set_option autoImplicit false

/- When the reports end. `Compare` breaks cycles at every open comparison, the printers only
at those that hold changes; a cycle of differences without one of those is printed forever. -/
namespace Stg

open Relation (ReflTransGen TransGen)

section Cycles

variable (graph : Graph) (options : CompareOptions)

/-- The comparison is of nodes that do not hold changes themselves. -/
def Unheld (c : Comparison) : Prop :=
  ∃ plan, Plans graph options c plan ∧ plan.holdsChanges = false

def UnheldEdge (c d : Comparison) : Prop :=
  ChildEdge graph options c d ∧ Unheld graph options c ∧ Unheld graph options d

/-- Nothing that is different can be reached from a cycle of comparisons that do not hold
changes. -/
def CyclesAlike (root : Comparison) : Prop :=
  ∀ c, ReflTransGen (ChildEdge graph options) root c → TransGen (UnheldEdge graph options) c c →
    Alike graph options c

variable {graph options} {s : State} {c d root : Comparison} {R : Comparison → Prop}

theorem State.Inv.unheld_iff (inv : s.Inv graph options R)
    (unequal : s.known.lookup c = some false) :
    Unheld graph options c ↔ ¬ s.outcomes.Holder c := by
  obtain ⟨plan, plans⟩ := inv.has_plan (c := c) (by simp [unequal])
  have held := inv.recorded c plan unequal plans
  have holder : s.outcomes.Holder c ↔ plan.holdsChanges = true := Outcomes.holder_eq held
  rw [holder, Bool.not_eq_true]
  constructor
  · rintro ⟨plan', plans', passed⟩
    rw [plans.unique plans']
    exact passed
  · exact fun passed => ⟨plan, plans, passed⟩

/-- Between unequal comparisons the recorded edges are the edges to the children. -/
theorem State.Inv.edge_iff_child (inv : s.Inv graph options R)
    (unequal : s.known.lookup c = some false) (unequal' : s.known.lookup d = some false) :
    s.outcomes.Edge c d ↔ ChildEdge graph options c d := by
  obtain ⟨plan, plans⟩ := inv.has_plan (c := c) (by simp [unequal])
  constructor
  · rintro ⟨diff, held, among⟩
    rw [inv.edges_exact unequal held (requests_iff.mpr ⟨plan, plans, rfl⟩)] at among
    obtain ⟨request, requested, rfl⟩ := List.mem_map.mp among
    obtain ⟨plan', plans'⟩ := inv.has_plan (c := request.comparison) (by simp [unequal'])
    obtain ⟨node1, node2, _, _, same⟩ := plans'.set
    cases request with
    | removed | added => cases same
    | compare node1 node2 =>
      exact plans.childEdge.mpr (mem_children.mpr ⟨_, _, (List.mem_filter.mp requested).1, rfl⟩)
  · intro edge
    obtain ⟨node1, node2, requested, rfl⟩ := mem_children.mp (plans.childEdge.mp edge)
    exact inv.edge_of_step unequal plans requested (by simp [Request.differs, unequal'])

/-- A comparison with edges is unequal. -/
theorem State.Inv.unequal_of_edge (inv : s.Inv graph options R) (edge : s.outcomes.Edge c d) :
    s.known.lookup c = some false := by
  obtain ⟨diff, held, among⟩ := edge
  rcases inv.outcomes c diff held with unequal | ⟨rfl, _⟩
  · exact unequal
  · cases among

/-- Every cycle of differences passes a comparison that holds changes if and only if the
compared nodes have no other cycle with something different below it. -/
theorem State.Inv.cyclesHold_iff
    (inv : s.Inv graph options (ReflTransGen (ChildEdge graph options) root))
    (known : s.known.lookup root ≠ none) :
    s.outcomes.CyclesHold ↔ CyclesAlike graph options root := by
  constructor
  · intro cycles c path cycle
    have below : ∀ {a b}, ReflTransGen (UnheldEdge graph options) a b →
        ReflTransGen (ChildEdge graph options) a b :=
      fun {a b} walk => ReflTransGen.mono (fun _ _ edge => edge.1) a b walk
    have settled := inv.known_reachable known path
    obtain ⟨verdict, held⟩ := Option.ne_none_iff_exists'.mp settled
    cases verdict with
    | true => exact (inv.verdict_iff held).mp rfl
    | false =>
      obtain ⟨different, leads, differs⟩ := inv.unequal c held
      have unequal : ∀ a, ReflTransGen (UnheldEdge graph options) c a →
          ReflTransGen (UnheldEdge graph options) a c → s.known.lookup a = some false :=
        fun a there back => inv.unequal_of_reaches (inv.known_reachable settled (below there))
          ((below back).trans leads) differs
      have through : ∀ b, TransGen (UnheldEdge graph options) c b →
          ReflTransGen (UnheldEdge graph options) b c → TransGen s.outcomes.Through c b := by
        have step : ∀ a b, ReflTransGen (UnheldEdge graph options) c a →
            UnheldEdge graph options a b → ReflTransGen (UnheldEdge graph options) b c →
            s.outcomes.Through a b := by
          intro a b there edge back
          have first := unequal a there (.head edge back)
          have second := unequal b (there.tail edge) back
          exact ⟨⟨(inv.edge_iff_child first second).mpr edge.1,
            (inv.unheld_iff second).mp edge.2.2⟩,
            (inv.unheld_iff first).mp edge.2.1⟩
        intro b walk
        induction walk with
        | single edge => exact fun back => .single (step _ _ .refl edge back)
        | tail walk edge ih =>
          exact fun back => .tail (ih (.head edge back)) (step _ _ walk.to_reflTransGen edge back)
      exact absurd (through c cycle .refl) (cycles c)
  · intro alike c cycle
    have unheld : ∀ a b, s.outcomes.Through a b ∧ (∃ e, s.outcomes.Through b e) →
        UnheldEdge graph options a b := by
      rintro a b ⟨⟨⟨edge, second⟩, first⟩, e, ⟨next, _⟩, _⟩
      have unequal := inv.unequal_of_edge edge
      have unequal' := inv.unequal_of_edge next
      exact ⟨(inv.edge_iff_child unequal unequal').mp edge, (inv.unheld_iff unequal).mpr first,
        (inv.unheld_iff unequal').mpr second⟩
    obtain ⟨d, first, _⟩ := TransGen.head'_iff.mp cycle
    have unequal := inv.unequal_of_edge first.1.1
    have reached := (inv.met c (.inl (by simp [unequal]))).1
    have walk := TransGen.mono unheld c c (Cycle.cycle_goes_on cycle ⟨d, first⟩)
    have same := (inv.verdict_iff unequal).mpr (alike c reached walk)
    cases same

end Cycles

section Described

variable (graph : Graph) (options : CompareOptions)

/-- The comparisons that the differences are made of: those met on the way from the root that
are different, and those of nodes on one side only. -/
inductive Reported (root : Comparison) : Comparison → Prop where
  | unequal {c : Comparison} : ReflTransGen (ChildEdge graph options) root c → ¬ Alike graph options c →
    Reported root c
  | oneSided {c d : Comparison} {plan : Plan} {step : Step} :
    ReflTransGen (ChildEdge graph options) root d → Plans graph options d plan → step ∈ plan.steps →
    step.sided = some c → Reported root c

/-- Such a comparison is described by the name of the node. -/
def Spoken (root : Comparison) (id : Id) : Prop :=
  ∃ c, Reported graph options root c ∧ graph.DescribedBy c id

variable {graph options} {s : State} {c d root : Comparison} {plan : Plan} {id1 id2 : Id}

theorem plans_of_unlike (unlike : ¬ Alike graph options c) :
    ∃ plan, Plans graph options c plan := by
  obtain ⟨d, path, differs⟩ : ∃ d, ReflTransGen (ChildEdge graph options) c d ∧
      LocalDifference graph options d := by
    by_contra none_
    exact unlike fun d path differs => none_ ⟨d, path, differs⟩
  obtain rfl | ⟨_, ⟨requests, _, _, requested, _⟩, _⟩ := ReflTransGen.cases_head path
  · obtain ⟨plan, plans, _⟩ := localDifference_iff.mp differs
    exact ⟨plan, plans⟩
  · obtain ⟨plan, plans, _⟩ := requests_iff.mp requested
    exact ⟨plan, plans⟩

/-- Where all nodes of the graph can be named, those that are different can. -/
theorem Graph.Nameable.spoken (nameable : graph.Nameable) :
    graph.NameableFrom (Spoken graph options root) where
  walks := by
    rintro part ⟨id, ⟨c, reported, by_⟩, path⟩
    have set : graph.Is id := by
      cases by_ with
      | first found | second found =>
        obtain ⟨node, got, _⟩ := resolveTypedefs_end found
        exact ⟨node, got⟩
      | removed | added =>
        cases reported with
        | unequal _ unlike =>
          obtain ⟨_, plans⟩ := plans_of_unlike unlike
          obtain ⟨_, _, _, _, two⟩ := plans.set
          cases two
        | @oneSided _ _ step _ plans among sided =>
          have inside := plans.within nameable.references nameable.resolves step among
          cases step <;> cases sided
          exact inside
    exact nameable.describable.nameableFrom.walks part ⟨id, set, path⟩
  qualified id _ := nameable.qualified.from id

end Described

section Reports

variable {σ α : Type} {graph : Graph} {options : CompareOptions} {outcomes : Outcomes}
  {s : State} {c root : Comparison}

/-- With enough fuel the report is completed, whatever names are cached. -/
def Ends (graph : Graph) (report : Nat → StateT σ NameM α) (start : σ) : Prop :=
  ∃ enough, ∀ fuel, enough ≤ fuel → ∀ names : NameCache, names.Sound graph →
    ∃ out, ((report fuel).run start).run names = .ok out

/-- However much fuel there is, the report uses it up. -/
def Spins (graph : Graph) (report : Nat → StateT σ NameM α) (start : σ) : Prop :=
  ∀ fuel, ∀ names : NameCache, names.Sound graph →
    ((report fuel).run start).run names = .error .outOfFuel

theorem Ends.of_does {report : Nat → StateT σ NameM α} {start : σ} {post : α → σ → Prop}
    (does : ∃ enough, ∀ fuel, (True → enough ≤ fuel) → Does graph True (report fuel) start post) :
    Ends graph report start := by
  obtain ⟨enough, does⟩ := does
  refine ⟨enough, fun fuel more names sound => ?_⟩
  obtain ⟨value, state', names', ran, _⟩ := (does fuel fun _ => more).returns sound
  exact ⟨_, ran⟩

/-- A report that cannot be completed as it would have to be is not completed. -/
theorem Spins.of_does {report : Nat → StateT σ NameM α} {start : σ} {post : α → σ → Prop}
    (does : ∃ enough, ∀ fuel, (False → enough ≤ fuel) → Does graph False (report fuel) start post)
    (never : ∀ value state', ¬ post value state') : Spins graph report start := by
  obtain ⟨enough, does⟩ := does
  intro fuel names sound
  rcases does fuel nofun names sound with ⟨value, state', _, _, _, holds⟩ | spent
  · exact absurd holds (never value state')
  · exact spent.2

theorem reportPlain_spins (sound : outcomes.Sound graph) (nameable : outcomes.Nameable graph)
    (present : outcomes.lookup root ≠ none) (leads : TransGen outcomes.Edge root c)
    (cycle : TransGen outcomes.Through c c) :
    Spins graph (fun fuel => reportPlain graph outcomes fuel root) ∅ := by
  refine Spins.of_does (reportPlain_does sound nameable nofun present) ?_
  rintro pieces _ ⟨forest, walks, _⟩
  have visited : c ∈ forest.visits := by
    rw [walks.mem_visits_iff, Outcomes.scheme_edge_eq]
    exact transGen_edge_iff.mp leads
  obtain ⟨d, first, _⟩ := TransGen.head'_iff.mp cycle
  have ends := walks.ends c visited (Outcomes.once_eq_false.mpr first.2)
  have again := TransGen.mono (fun _ _ through => Outcomes.again_iff.mpr through) c c cycle
  exact Cycle.acyclic_of_acc ends again

theorem reportFlat_spins (full : Bool) (sound : outcomes.Sound graph)
    (nameable : outcomes.Nameable graph) {diff : Diff} (held : outcomes.lookup root = some diff)
    (rooted : ∀ detail ∈ diff.details, detail.edge ≠ none) (leads : TransGen outcomes.Edge root c)
    (cycle : TransGen outcomes.Through c c) :
    Spins graph (fun fuel => reportFlat graph outcomes full fuel root) {} := by
  refine Spins.of_does (reportFlat_does full sound nameable nofun held rooted) ?_
  intro report queue covers
  have falls : ∀ p q, Acc (fun b a => outcomes.Inner a b) p → ReflTransGen outcomes.Inner p q →
      Acc (fun b a => outcomes.Inner a b) q := by
    intro p q ends path
    induction path with
    | refl => exact ends
    | tail _ step ih => exact ih.inv step
  have ends : Acc (fun b a => outcomes.Inner a b) c := by
    rcases covers.reached leads with ⟨e, ⟨diff, held, among⟩, inner, path⟩ | ⟨part, isPart, path⟩
    · exact falls e c ((covers.roots diff held).ends e among inner) path
    · exact falls _ c (covers.sections part isPart).ends path
  exact Cycle.acyclic_of_acc ends (TransGen.mono (fun _ _ through => through.1) c c cycle)

/-- The recorded edges lead from the root to every unequal comparison. -/
theorem State.Inv.leads_to_unequal
    (inv : s.Inv graph options (ReflTransGen (ChildEdge graph options) root))
    (known : s.known.lookup root ≠ none) (unequal : s.known.lookup c = some false) :
    ReflTransGen s.outcomes.Edge root c := by
  obtain ⟨different, leads, differs⟩ := inv.unequal c unequal
  have path := (inv.met c (.inl (by simp [unequal]))).1
  have along : ∀ a, ReflTransGen (ChildEdge graph options) a c → s.known.lookup a ≠ none →
      ReflTransGen s.outcomes.Edge a c := by
    intro a path
    induction path using ReflTransGen.head_induction_on with
    | refl => exact fun _ => .refl
    | @head a b edge rest ih =>
      intro known
      have settled := inv.known_reachable known (.single edge)
      have first := inv.unequal_of_reaches known (.head edge (rest.trans leads)) differs
      have second := inv.unequal_of_reaches settled (rest.trans leads) differs
      exact .head ((inv.edge_iff_child first second).mpr edge) (ih settled)
  exact along root path known

end Reports

section Compare

variable {graph : Graph} {options : CompareOptions} {s : State} {root1 root2 : Id}
  {symbols1 symbols2 : Symbols}

/-- A cycle of differences that the printers do not leave is printed forever. -/
theorem State.Inv.reports_spin
    (inv : s.Inv graph options (ReflTransGen (ChildEdge graph options) (some root1, some root2)))
    (sound : s.outcomes.Sound graph) (nameable : s.outcomes.Nameable graph)
    (got1 : graph.get root1 = .ok (.symbols symbols1))
    (got2 : graph.get root2 = .ok (.symbols symbols2))
    (unequal : s.known.lookup (some root1, some root2) = some false)
    (cycling : ¬ s.outcomes.CyclesHold) :
    Spins graph (fun fuel => reportPlain graph s.outcomes fuel (some root1, some root2)) ∅ ∧
    ∀ full, Spins graph
      (fun fuel => reportFlat graph s.outcomes full fuel (some root1, some root2)) {} := by
  obtain ⟨diff, held, rooted, _⟩ := inv.symbols_entry got1 got2 unequal
  have plans := plans_symbols options got1 got2
  have holder : s.outcomes.Holder (some root1, some root2) :=
    ⟨_, inv.recorded _ _ unequal plans, rfl⟩
  obtain ⟨c, cycle⟩ : ∃ c, TransGen s.outcomes.Through c c := by
    by_contra none_
    exact cycling fun c cycle => none_ ⟨c, cycle⟩
  obtain ⟨d, first, _⟩ := TransGen.head'_iff.mp cycle
  have path := inv.leads_to_unequal (by simp [unequal]) (inv.unequal_of_edge first.1.1)
  have leads : TransGen s.outcomes.Edge (some root1, some root2) c := by
    rcases Relation.reflTransGen_iff_eq_or_transGen.mp path with rfl | leads
    · exact absurd holder first.2
    · exact leads
  exact ⟨reportPlain_spins sound nameable (by simp [held]) leads cycle,
    fun full => reportFlat_spins full sound nameable held rooted leads cycle⟩

end Compare

section Examples

theorem unheldEdge_of_plans {graph : Graph} {options : CompareOptions} {c d : Comparison}
    {plan plan' : Plan} (plans : Plans graph options c plan) (plans' : Plans graph options d plan')
    (child : d ∈ plan.children) (passed : plan.holdsChanges = false)
    (passed' : plan'.holdsChanges = false) : UnheldEdge graph options c d :=
  ⟨plans.childEdge.mpr child, ⟨plan, plans, passed⟩, ⟨plan', plans', passed'⟩⟩

end Examples

end Stg
