import Stg.Avoids
import Stg.Lifetime

set_option autoImplicit false

/- The differences that a comparison leaves behind: one entry for every unequal
comparison, with exactly the edges that lead to differences. -/
namespace Stg

open Relation (ReflTransGen)

/-- Whether the edge of a request belongs to the differences, given the verdicts. -/
def Request.differs (known : AList fun _ : Comparison => Bool) : Request → Bool
  | .compare node1 node2 => known.lookup (some node1, some node2) = some false
  | .removed _ | .added _ => true

/-- The edges of a list of details. -/
def Diff.edges (diff : Diff) : List Comparison := diff.details.filterMap (·.edge)

variable {graph : Graph} {options : CompareOptions} {R : Comparison → Prop} {s : State}
  {c child : Comparison} {plan : Plan}

theorem Step.detail_edge (kept : Comparison → Bool) (step : Step) :
    ((step.detail kept).bind (·.edge)) = step.request.bind fun request =>
      match request with
      | .compare node1 node2 =>
        if kept (some node1, some node2) then some (some node1, some node2) else none
      | .removed node => some (some node, none)
      | .added node => some (none, some node) := by
  cases step with
  | compare text node1 node2 =>
    simp only [Step.detail, Step.request, Option.bind_some]
    split <;> rfl
  | _ => rfl

/-- The edges that the plan of an unequal comparison leaves, when all verdicts are known. -/
theorem Plan.diff_edges (plan : Plan)
    (known : ∀ child ∈ plan.children, s.known.lookup child ≠ none) :
    (plan.diff s.kept).edges = (plan.requests.filter (·.differs s.known)).map
      Request.comparison := by
  simp only [Plan.diff, diffOf, Diff.edges, Plan.requests, List.filterMap_filterMap,
    List.filter_filterMap, List.map_filterMap]
  refine List.filterMap_congr fun step present => ?_
  rw [Step.detail_edge]
  cases step with
  | compare text node1 node2 =>
    have settled := known (some node1, some node2) (List.mem_filterMap.mpr ⟨_, present, rfl⟩)
    obtain ⟨verdict, held⟩ := Option.ne_none_iff_exists'.mp settled
    cases verdict <;> simp [Step.request, Request.differs, State.kept, held, Request.comparison]
  | _ => simp [Step.request, Request.differs, Request.comparison]

/-- With nothing open, the comparisons that a known one reaches are known. -/
theorem State.Inv.known_reachable (inv : s.Inv graph options R)
    (known : s.known.lookup c ≠ none) {d : Comparison}
    (path : ReflTransGen (ChildEdge graph options) c d) : s.known.lookup d ≠ none := by
  induction path with
  | refl => exact known
  | tail _ edge ih => exact inv.walk.closedEdge _ _ ih edge

theorem State.Inv.has_plan (inv : s.Inv graph options R) (known : s.known.lookup c ≠ none) :
    ∃ plan, Plans graph options c plan :=
  (inv.met c (.inl known)).2

/-- A two-sided comparison has an entry exactly when it is known to be unequal. -/
theorem State.Inv.outcomes_iff (inv : s.Inv graph options R) {verdict : Bool}
    (known : s.known.lookup c = some verdict) :
    s.outcomes.lookup c ≠ none ↔ verdict = false := by
  obtain ⟨plan, plans⟩ := inv.has_plan (known ▸ Option.some_ne_none verdict)
  constructor
  · intro present
    obtain ⟨diff, held⟩ := Option.ne_none_iff_exists'.mp present
    rcases inv.outcomes c diff held with unequal | ⟨_, d, plan', _, _, step, _, sided⟩
    · rw [known] at unequal
      exact Option.some.inj unequal
    · obtain ⟨node1, node2, fuel, rfl, _⟩ := plans
      cases step <;> cases sided
  · rintro rfl
    rw [inv.recorded c plan known plans]
    exact Option.some_ne_none _

/-- With nothing open, the entries are those of the unequal comparisons and of the
nodes on one side only. -/
theorem State.Inv.outcomes_keys (inv : s.Inv graph options R) (idle : s.scc.open_ = []) :
    s.outcomes.lookup c ≠ none ↔ s.known.lookup c = some false ∨
      ∃ d plan, s.known.lookup d ≠ none ∧ Plans graph options d plan ∧
        ∃ step ∈ plan.steps, step.sided = some c := by
  constructor
  · intro present
    obtain ⟨diff, held⟩ := Option.ne_none_iff_exists'.mp present
    rcases inv.outcomes c diff held with unequal | ⟨_, d, plan, met, plans, sided⟩
    · exact .inl unequal
    · rcases met with known | isOpen
      · exact .inr ⟨d, plan, known, plans, sided⟩
      · simp [idle] at isOpen
  · rintro (unequal | ⟨d, plan, known, plans, step, present, sided⟩)
    · exact (inv.outcomes_iff unequal).mpr rfl
    · rw [inv.sided d plan known plans step present c sided]
      exact Option.some_ne_none _

/-- The edges that an entry lists are those of the requests that differ. -/
theorem State.Inv.edges_exact (inv : s.Inv graph options R) {diff : Diff} {requests : List Request}
    (unequal : s.known.lookup c = some false) (held : s.outcomes.lookup c = some diff)
    (requested : Requests graph options c requests) :
    diff.edges = (requests.filter (·.differs s.known)).map Request.comparison := by
  obtain ⟨plan, plans, rfl⟩ := requests_iff.mp requested
  rw [inv.recorded c plan unequal plans] at held
  cases held
  refine plan.diff_edges fun child present => ?_
  exact inv.walk.closedEdge c child (by simp [State.config, Scc.config, unequal])
    (plans.childEdge.mpr present)

theorem mem_edges {diff : Diff} {edge : Comparison} :
    edge ∈ diff.edges ↔ ∃ detail ∈ diff.details, detail.edge = some edge := by
  simp [Diff.edges]

theorem State.Inv.outcomes_closed (inv : s.Inv graph options R) : s.outcomes.Closed := by
  intro c diff held detail present edge isEdge
  have listed : edge ∈ diff.edges := mem_edges.mpr ⟨detail, present, isEdge⟩
  rcases inv.outcomes c diff held with unequal | ⟨rfl, _⟩
  · obtain ⟨plan, plans⟩ := inv.has_plan (c := c) (by simp [unequal])
    rw [inv.edges_exact unequal held (requests_iff.mpr ⟨plan, plans, rfl⟩)] at listed
    obtain ⟨request, among, rfl⟩ := List.mem_map.mp listed
    obtain ⟨requested, differs⟩ := List.mem_filter.mp among
    obtain ⟨step, isStep, makes⟩ := List.mem_filterMap.mp requested
    cases step with
    | note | incomparable => cases makes
    | removed text node =>
      cases makes
      have entry := inv.sided c plan (by simp [unequal]) plans _ isStep _ rfl
      simp [Request.comparison, entry]
    | added text node =>
      cases makes
      have entry := inv.sided c plan (by simp [unequal]) plans _ isStep _ rfl
      simp [Request.comparison, entry]
    | compare text node1 node2 =>
      cases makes
      have child : s.known.lookup (some node1, some node2) = some false := by
        simpa [Request.differs] using differs
      exact (inv.outcomes_iff child).mpr rfl
  · cases listed

/-- The diff graph of a comparison from a fresh state is exact: the known verdicts are
final, the unequal comparisons have entries, and each entry lists the edges that
differ. So no reporter can find a comparison without an entry. -/
theorem compare_diff_graph {node1 node2 : Id} (references : graph.ReferencesSet)
    (resolves : graph.Resolves) (options : CompareOptions) (set1 : graph.Is node1)
    (set2 : graph.Is node2) :
    ∃ enough, ∀ fuel, enough ≤ fuel → ∃ answer s,
      runCompare graph options fuel {} node1 node2 = .ok (answer, s) ∧
      (∀ c, ReflTransGen (ChildEdge graph options) (some node1, some node2) c →
        ∃ verdict requests, s.known.lookup c = some verdict ∧
          (verdict = true ↔ ∀ d, ReflTransGen (ChildEdge graph options) c d →
            ¬ LocalDifference graph options d) ∧
          (s.outcomes.lookup c ≠ none ↔ verdict = false) ∧
          Requests graph options c requests ∧
          ∀ diff, s.outcomes.lookup c = some diff →
            diff.edges.Perm ((requests.filter (·.differs s.known)).map Request.comparison)) ∧
      s.outcomes.Closed ∧
      ∀ root, answer.2 = some root → ∀ depth names,
        ((reportPlain graph s.outcomes depth root).run ∅).run names ≠
          .error (.exception missingComparison) ∧
        (∀ full, ((reportFlat graph s.outcomes full depth root).run {}).run names ≠
          .error (.exception missingComparison)) ∧
        ((reportViz graph s.outcomes depth root).run {}).run names ≠
          .error (.exception missingComparison) := by
  obtain ⟨enough, returns⟩ := runCompare_returns references resolves options
  refine ⟨enough, fun fuel more => ?_⟩
  obtain ⟨answer, s, ran⟩ := returns fuel more {} .new node1 node2 set1 set2
  obtain ⟨inv, _, _, verdict, known, rfl⟩ := runCompare_called (fun _ _ _ _ => trivial)
    (State.Inv.new graph options fun _ => True) rfl trivial ran
  refine ⟨_, s, ran, fun c path => ?_, inv.outcomes_closed, fun root isRoot depth names => ?_⟩
  · have settled := inv.known_reachable (by simp [known]) path
    obtain ⟨verdict, held⟩ := Option.ne_none_iff_exists'.mp settled
    obtain ⟨plan, plans⟩ := inv.has_plan settled
    have requested : Requests graph options c plan.requests := requests_iff.mpr ⟨plan, plans, rfl⟩
    refine ⟨verdict, plan.requests, held, inv.verdict_iff held, inv.outcomes_iff held,
      requested, ?_⟩
    intro diff entry
    have unequal : verdict = false := (inv.outcomes_iff held).mp (by simp [entry])
    exact .of_eq (inv.edges_exact (unequal ▸ held) entry requested)
  · have unequal : verdict = false := by
      cases verdict
      · rfl
      · cases isRoot
    cases unequal
    cases isRoot
    have present := (inv.outcomes_iff known).mpr rfl
    have closed := inv.outcomes_closed
    refine ⟨?_, fun full => ?_, ?_⟩
    · exact (reportPlain_avoids closed _).raises_not trivial
    · exact (reportFlat_avoids closed _).raises_not nofun
    · exact (reportViz_avoids closed _ present).raises_not trivial

theorem compare_diff_graph_lists :
    ∃ enough, ∀ fuel, enough ≤ fuel → ∃ answer s,
      runCompare (twoLists 16) {} fuel {} ⟨0⟩ ⟨3⟩ = .ok (answer, s) ∧
      (∀ c, ReflTransGen (ChildEdge (twoLists 16) {}) (some ⟨0⟩, some ⟨3⟩) c →
        ∃ verdict requests, s.known.lookup c = some verdict ∧
          (verdict = true ↔ ∀ d, ReflTransGen (ChildEdge (twoLists 16) {}) c d →
            ¬ LocalDifference (twoLists 16) {} d) ∧
          (s.outcomes.lookup c ≠ none ↔ verdict = false) ∧
          Requests (twoLists 16) {} c requests ∧
          ∀ diff, s.outcomes.lookup c = some diff →
            diff.edges.Perm ((requests.filter (·.differs s.known)).map Request.comparison)) ∧
      s.outcomes.Closed ∧
      ∀ root, answer.2 = some root → ∀ depth names,
        ((reportPlain (twoLists 16) s.outcomes depth root).run ∅).run names ≠
          .error (.exception missingComparison) ∧
        (∀ full, ((reportFlat (twoLists 16) s.outcomes full depth root).run {}).run names ≠
          .error (.exception missingComparison)) ∧
        ((reportViz (twoLists 16) s.outcomes depth root).run {}).run names ≠
          .error (.exception missingComparison) :=
  compare_diff_graph (twoLists_references 16) (twoLists_resolves 16) {} ⟨_, rfl⟩ ⟨_, rfl⟩

end Stg
