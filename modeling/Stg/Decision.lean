import Stg.DiffGraph
import Mathlib.Data.Finset.Lattice.Fold

set_option autoImplicit false

/- When a comparison from a fresh state returns, and what it finds: both are facts
about the graph of child comparisons, whatever order the comparisons are made in. -/
namespace Stg

open PathScc
open Relation (ReflTransGen)

variable {graph : Graph} {options : CompareOptions} {s : State} {fuel : Nat} {node1 node2 : Id}
  {answer : Answer} {verdict : Bool} {c d : Comparison}

/-- Every comparison that can be reached has an examination that succeeds, and whether
it finds no difference is acceptable. -/
def Accepted (graph : Graph) (options : CompareOptions) (ok : Bool → Prop) : Comparison → Prop :=
  Reach.Safe (ChildEdge graph options) fun c =>
    ¬ ∃ plan, Plans graph options c plan ∧ ok plan.clean

/-- Every comparison that can be reached has an examination that succeeds. -/
abbrev Explorable (graph : Graph) (options : CompareOptions) : Comparison → Prop :=
  Accepted graph options fun _ => True

/-- A comparison from a fresh state returns with the verdict. -/
def Finds (graph : Graph) (options : CompareOptions) (node1 node2 : Id) (verdict : Bool) : Prop :=
  ∃ fuel comparison s,
    runCompare graph options fuel {} node1 node2 = .ok ((verdict, comparison), s)

section Accepted

variable {ok : Bool → Prop}

theorem Accepted.step (accepted : Accepted graph options ok c) :
    ∃ plan, Plans graph options c plan ∧ ok plan.clean ∧
      ∀ child ∈ plan.children, Accepted graph options ok child := by
  obtain ⟨plan, plans, isOk⟩ := not_not.mp accepted.here
  exact ⟨plan, plans, isOk, fun child present => accepted.next (plans.childEdge.mpr present)⟩

theorem Accepted.of_step {plan : Plan} (plans : Plans graph options c plan) (isOk : ok plan.clean)
    (children : ∀ child ∈ plan.children, Accepted graph options ok child) :
    Accepted graph options ok c := by
  intro d path
  rcases path.cases_head with rfl | ⟨child, edge, rest⟩
  · exact not_not.mpr ⟨plan, plans, isOk⟩
  · exact children child (plans.childEdge.mp edge) d rest

theorem Accepted.coinduct {R : Comparison → Prop}
    (steps : ∀ c, R c → ∃ plan, Plans graph options c plan ∧ ok plan.clean ∧
      ∀ child ∈ plan.children, R child) (start : R c) : Accepted graph options ok c := by
  refine Reach.Safe.coinduct (R := R) (fun c related => ?_) (fun c child related edge => ?_) start
  · obtain ⟨plan, plans, isOk, _⟩ := steps c related
    exact not_not.mpr ⟨plan, plans, isOk⟩
  · obtain ⟨plan, plans, _, children⟩ := steps c related
    exact children child (plans.childEdge.mp edge)

theorem Accepted.imp {ok' : Bool → Prop} (weaker : ∀ clean, ok clean → ok' clean)
    (accepted : Accepted graph options ok c) : Accepted graph options ok' c := by
  intro d path
  obtain ⟨plan, plans, isOk⟩ := not_not.mp (accepted d path)
  exact not_not.mpr ⟨plan, plans, weaker _ isOk⟩

theorem accepted_clean_iff : Accepted graph options (· = true) c ↔
    Explorable graph options c ∧ Alike graph options c := by
  constructor
  · refine fun accepted => ⟨accepted.imp fun _ _ => trivial, fun d path => ?_⟩
    obtain ⟨plan, plans, clean⟩ := not_not.mp (accepted d path)
    simp [plans.localDifference, clean]
  · rintro ⟨explorable, alike⟩ d path
    obtain ⟨plan, plans, _⟩ := not_not.mp (explorable d path)
    have clean := alike d path
    rw [plans.localDifference, Bool.not_eq_false] at clean
    exact not_not.mpr ⟨plan, plans, clean⟩

end Accepted

/-- What a comparison from a fresh state leaves behind. -/
theorem runCompare_fresh (ran : runCompare graph options fuel {} node1 node2 = .ok (answer, s)) :
    s.Inv graph options (ReflTransGen (ChildEdge graph options) (some node1, some node2)) ∧
      s.scc.open_ = [] ∧ ∃ verdict, s.known.lookup (some node1, some node2) = some verdict ∧
        answer = (verdict, if verdict then none else some (some node1, some node2)) := by
  obtain ⟨inv, idle, _, found⟩ := runCompare_called
    (R := ReflTransGen (ChildEdge graph options) (some node1, some node2))
    (fun _ _ path edge => path.tail edge) (State.Inv.new graph options _) rfl .refl ran
  exact ⟨inv, idle, found⟩

theorem explorable_of_returns
    (ran : runCompare graph options fuel {} node1 node2 = .ok (answer, s)) :
    Explorable graph options (some node1, some node2) := by
  obtain ⟨inv, _, verdict, known, _⟩ := runCompare_fresh ran
  intro c path unplanned
  obtain ⟨plan, plans⟩ := inv.has_plan (inv.known_reachable (by simp [known]) path)
  exact unplanned ⟨plan, plans, trivial⟩

/-- The comparisons that are examined are those that can be reached. -/
theorem known_iff_reachable (ran : runCompare graph options fuel {} node1 node2 = .ok (answer, s)) :
    s.known.lookup c ≠ none ↔
      ReflTransGen (ChildEdge graph options) (some node1, some node2) c := by
  obtain ⟨inv, _, verdict, known, _⟩ := runCompare_fresh ran
  exact ⟨fun known => (inv.met c (.inl known)).1,
    fun path => inv.known_reachable (by simp [known]) path⟩

theorem Plans.set {plan : Plan} (plans : Plans graph options c plan) :
    ∃ node1 node2, graph.Is node1 ∧ graph.Is node2 ∧ c = (some node1, some node2) := by
  obtain ⟨node1, node2, fuel, rfl, planned⟩ := plans
  obtain ⟨out1, found1, planned⟩ := bind_eq_ok planned
  obtain ⟨out2, found2, _⟩ := bind_eq_ok planned
  exact ⟨node1, node2, resolveQualifiers_start found1, resolveQualifiers_start found2, rfl⟩

open Classical in
/-- The comparisons of set nodes that can be explored are closed under child edges. -/
theorem explorable_confined (graph : Graph) (options : CompareOptions) :
    ∃ nodes enough, Confined graph options nodes enough ∧
      ∀ c, Explorable graph options c → c ∈ nodes := by
  have planned : ∀ c, ∃ fuel, Explorable graph options c → ∀ node1 node2,
      c = (some node1, some node2) → ∃ plan, planOf graph options fuel node1 node2 = .ok plan := by
    intro c
    by_cases explorable : Explorable graph options c
    · obtain ⟨plan, ⟨node1, node2, fuel, rfl, planned⟩, _⟩ := explorable.step
      refine ⟨fuel, fun _ _ _ same => ?_⟩
      cases same
      exact ⟨plan, planned⟩
    · exact ⟨0, fun isExplorable => absurd isExplorable explorable⟩
  choose fuelFor planned using planned
  let nodes := graph.comparisons.filter (Explorable graph options)
  have among : ∀ c, Explorable graph options c → c ∈ nodes := by
    intro c explorable
    obtain ⟨plan, plans, _⟩ := explorable.step
    exact Finset.mem_filter.mpr ⟨Graph.mem_comparisons.mpr plans.set, explorable⟩
  refine ⟨nodes, nodes.sup fuelFor, ⟨?_, ?_⟩, among⟩
  · intro node1 node2 present fuel more
    obtain ⟨plan, found⟩ := planned _ (Finset.mem_filter.mp present).2 node1 node2 rfl
    exact ⟨plan, planOf_yields ((Finset.le_sup present).trans more) node1 node2 plan found⟩
  · exact fun c present child edge => among child ((Finset.mem_filter.mp present).2.next edge)

/-- A comparison whose reachable comparisons can all be examined returns. -/
theorem Explorable.returns (explorable : Explorable graph options (some node1, some node2)) :
    ∃ enough, ∀ fuel, enough ≤ fuel → ∃ answer s,
      runCompare graph options fuel {} node1 node2 = .ok (answer, s) := by
  obtain ⟨nodes, enough, confined, among⟩ := explorable_confined graph options
  refine ⟨enough + (nodes.card + 1), fun fuel more => ?_⟩
  exact compare_returns confined (fun _ _ _ _ => trivial) fuel _ more {} node1 node2
    (State.Inv.new graph options fun _ => True) trivial (among _ explorable) nofun
    (Nat.lt_succ_of_le (Config.pending_le_card _ _))

/-- The verdict of a comparison depends on the graph of child comparisons only. -/
theorem finds_iff : Finds graph options node1 node2 verdict ↔
    Explorable graph options (some node1, some node2) ∧
      (verdict = true ↔ Alike graph options (some node1, some node2)) := by
  constructor
  · rintro ⟨fuel, comparison, s, ran⟩
    obtain ⟨inv, _, found, known, same⟩ := runCompare_fresh ran
    obtain rfl : verdict = found := congrArg Prod.fst same
    exact ⟨explorable_of_returns ran, inv.verdict_iff known⟩
  · rintro ⟨explorable, decides⟩
    obtain ⟨enough, returns⟩ := explorable.returns
    obtain ⟨⟨found, comparison⟩, s, ran⟩ := returns enough (Nat.le_refl _)
    obtain ⟨inv, _, found', known, same⟩ := runCompare_fresh ran
    obtain rfl : found = found' := congrArg Prod.fst same
    have equal : found = verdict :=
      Bool.eq_iff_iff.mpr ((inv.verdict_iff known).trans decides.symm)
    exact ⟨enough, comparison, s, equal ▸ ran⟩

theorem Finds.unique {verdict' : Bool} (found : Finds graph options node1 node2 verdict)
    (found' : Finds graph options node1 node2 verdict') : verdict = verdict' :=
  Bool.eq_iff_iff.mpr ((finds_iff.mp found).2.trans (finds_iff.mp found').2.symm)

theorem finds_true_iff : Finds graph options node1 node2 true ↔
    Accepted graph options (· = true) (some node1, some node2) := by
  simp [finds_iff, accepted_clean_iff]

/-- Two comparisons find the same when they are accepted under the same conditions. -/
theorem finds_congr {graph' : Graph} {options' : CompareOptions} {node1' node2' : Id}
    (same : ∀ ok : Bool → Prop, ok true →
      (Accepted graph options ok (some node1, some node2) ↔
        Accepted graph' options' ok (some node1', some node2'))) :
    Finds graph options node1 node2 verdict ↔ Finds graph' options' node1' node2' verdict := by
  have explorable := same (fun _ => True) trivial
  have clean := same (· = true) rfl
  simp only [accepted_clean_iff] at clean
  simp only [finds_iff, ← explorable]
  refine and_congr_right fun isExplorable => ?_
  simp only [← explorable, isExplorable, true_and] at clean
  rw [clean]

end Stg
