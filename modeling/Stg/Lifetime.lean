import Stg.Verdict
import Mathlib.Data.Finset.Prod

set_option autoImplicit false

/- Top-level calls of `Compare` on one state, one after the other. -/
namespace Stg

open PathScc
open Relation (ReflTransGen)

/-- The states that sequences of top-level calls leave behind. -/
inductive Lifetime (graph : Graph) (options : CompareOptions) : State → Prop where
  | new : Lifetime graph options {}
  | call {s s' : State} {fuel : Nat} {node1 node2 : Id} {answer : Answer} :
    Lifetime graph options s → runCompare graph options fuel s node1 node2 = .ok (answer, s') →
    Lifetime graph options s'

variable {graph : Graph} {options : CompareOptions} {R : Comparison → Prop} {s s' : State}
  {fuel : Nat} {node1 node2 : Id} {answer : Answer}

/-- A top-level call leaves nothing open and answers with the final verdict. -/
theorem runCompare_called (closed : ∀ c child, R c → ChildEdge graph options c child → R child)
    (inv : s.Inv graph options R) (idle : s.scc.open_ = []) (inside : R (some node1, some node2))
    (ran : runCompare graph options fuel s node1 node2 = .ok (answer, s')) :
    s'.Inv graph options R ∧ s'.scc.open_ = [] ∧ s.Later s' ∧
      ∃ verdict, s'.known.lookup (some node1, some node2) = some verdict ∧
        answer = (verdict, if verdict then none else some (some node1, some node2)) := by
  have called := compare_calls closed fuel s node1 node2 answer s' ran inv inside (by simp [idle])
  have idle' : s'.scc.open_ = [] := called.visited.opened_nil inv.valid.stacked idle
  have known : s'.known.lookup (some node1, some node2) ≠ none := by
    rcases called.visited.settled with known | ⟨i, at_, _⟩
    · exact known
    · change s'.scc.open_[i]? = _ at at_
      simp [idle'] at at_
  obtain ⟨verdict, held⟩ := Option.ne_none_iff_exists'.mp known
  refine ⟨called.inv, idle', called.later, verdict, held, ?_⟩
  have noted := called.noted
  have equals := called.verdict
  rw [held] at noted equals
  simp only [idle', List.getElem?_nil, reduceCtorEq, false_implies, implies_true, and_true]
    at equals
  cases verdict
  · simp at equals noted
    exact Prod.ext equals noted
  · simp at equals noted
    exact Prod.ext equals noted

theorem Lifetime.inv (lifetime : Lifetime graph options s) :
    s.Inv graph options (fun _ => True) ∧ s.scc.open_ = [] := by
  induction lifetime with
  | new => exact ⟨State.Inv.new graph options _, rfl⟩
  | call _ ran ih =>
    obtain ⟨inv, idle, _⟩ := runCompare_called (fun _ _ _ _ => trivial) ih.1 ih.2 trivial ran
    exact ⟨inv, idle⟩

theorem AList.eq_empty_of_lookup {κ β : Type} [DecidableEq κ] {entries : AList fun _ : κ => β}
    (none : ∀ key, entries.lookup key = Option.none) : entries = ∅ := by
  refine AList.ext (List.eq_nil_iff_forall_not_mem.mpr ?_)
  rintro ⟨key, value⟩ present
  have held := AList.mem_lookup_iff.mpr present
  rw [none key] at held
  cases held

theorem State.Inv.provisional_empty (inv : s.Inv graph options R) (idle : s.scc.open_ = []) :
    s.provisional = ∅ := by
  refine AList.eq_empty_of_lookup fun c => ?_
  by_contra held
  have isOpen := inv.provisional c held
  rw [idle] at isOpen
  cases isOpen

section Whole

open Classical

noncomputable def Graph.ids (graph : Graph) : Finset Id :=
  ((Finset.range graph.nodes.length).image Id.mk).filter graph.Is

theorem Graph.mem_ids {id : Id} : id ∈ graph.ids ↔ graph.Is id := by
  simp only [Graph.ids, Finset.mem_filter, Finset.mem_image, Finset.mem_range,
    and_iff_right_iff_imp]
  exact fun set => ⟨id.ix, set.lt, rfl⟩

/-- All the two-sided comparisons of set nodes. -/
noncomputable def Graph.comparisons (graph : Graph) : Finset Comparison :=
  (graph.ids ×ˢ graph.ids).image fun pair => (some pair.1, some pair.2)

theorem Graph.mem_comparisons {c : Comparison} :
    c ∈ graph.comparisons ↔
      ∃ node1 node2, graph.Is node1 ∧ graph.Is node2 ∧ c = (some node1, some node2) := by
  simp only [Graph.comparisons, Finset.mem_image, Finset.mem_product, Graph.mem_ids, Prod.exists]
  constructor
  · rintro ⟨node1, node2, ⟨set1, set2⟩, rfl⟩
    exact ⟨node1, node2, set1, set2, rfl⟩
  · rintro ⟨node1, node2, set1, set2, rfl⟩
    exact ⟨node1, node2, ⟨set1, set2⟩, rfl⟩

/-- On a graph whose references are set and whose walks end, the comparisons of set
nodes are a closed set of comparisons that can be examined. -/
theorem Graph.confined (references : graph.ReferencesSet) (resolves : graph.Resolves)
    (options : CompareOptions) : ∃ enough, Confined graph options graph.comparisons enough := by
  obtain ⟨enough, within⟩ := resolves.within
  refine ⟨enough, ?_, ?_⟩
  · intro node1 node2 among fuel more
    obtain ⟨_, _, set1, set2, same⟩ := Graph.mem_comparisons.mp among
    cases same
    obtain ⟨plan, planned, _⟩ := planOf_total options references (within fuel more)
      set1 set2
    exact ⟨plan, planned⟩
  · intro c among child edge
    obtain ⟨node1, node2, set1, set2, rfl⟩ := Graph.mem_comparisons.mp among
    obtain ⟨plan, planned, inside⟩ := planOf_total options references
      (within enough (Nat.le_refl _)) set1 set2
    have plans : Plans graph options (some node1, some node2) plan := ⟨_, _, _, rfl, planned⟩
    obtain ⟨step, present, isChild⟩ := List.mem_filterMap.mp (plans.childEdge.mp edge)
    cases step with
    | compare text child1 child2 =>
      cases isChild
      obtain ⟨set1, set2⟩ := inside _ present
      exact Graph.mem_comparisons.mpr ⟨child1, child2, set1, set2, rfl⟩
    | _ => cases isChild

end Whole

/-- Top-level calls of set nodes return, at any time in the life of a state. -/
theorem runCompare_returns (references : graph.ReferencesSet) (resolves : graph.Resolves)
    (options : CompareOptions) : ∃ enough, ∀ fuel, enough ≤ fuel → ∀ s, Lifetime graph options s →
      ∀ node1 node2, graph.Is node1 → graph.Is node2 →
        ∃ answer s', runCompare graph options fuel s node1 node2 = .ok (answer, s') := by
  obtain ⟨enough, confined⟩ := Graph.confined references resolves options
  refine ⟨enough + (graph.comparisons.card + 1), fun fuel more s lifetime node1 node2 set1 set2 =>
    ?_⟩
  obtain ⟨inv, idle⟩ := lifetime.inv
  exact compare_returns confined (fun _ _ _ _ => trivial) fuel _ more s node1 node2 inv trivial
    (Graph.mem_comparisons.mpr ⟨node1, node2, set1, set2, rfl⟩) (by simp [idle])
    (Nat.lt_succ_of_le (Config.pending_le_card _ _))

/-- `Compare` decides equality of the two cyclic graphs: it answers `true` exactly
when no comparison that can be reached has a difference of its own. -/
theorem compare_decides_alike (references : graph.ReferencesSet) (resolves : graph.Resolves)
    (options : CompareOptions) (lifetime : Lifetime graph options s) (set1 : graph.Is node1)
    (set2 : graph.Is node2) :
    ∃ enough, ∀ fuel, enough ≤ fuel → ∃ equals comparison s',
      runCompare graph options fuel s node1 node2 = .ok ((equals, comparison), s') ∧
      (equals = true ↔ ∀ c, ReflTransGen (ChildEdge graph options) (some node1, some node2) c →
        ¬ LocalDifference graph options c) := by
  obtain ⟨enough, returns⟩ := runCompare_returns references resolves options
  refine ⟨enough, fun fuel more => ?_⟩
  obtain ⟨answer, s', ran⟩ := returns fuel more s lifetime node1 node2 set1 set2
  obtain ⟨inv, idle⟩ := lifetime.inv
  obtain ⟨inv', _, _, verdict, known, rfl⟩ := runCompare_called (fun _ _ _ _ => trivial) inv idle
    trivial ran
  exact ⟨verdict, _, s', ran, inv'.verdict_iff known⟩

/-- Two versions of a struct with a pointer to itself. -/
def twoLists (bytesize : UInt64) : Graph where
  nodes := [
    some (.pointerReference ⟨.pointer, ⟨1⟩⟩),
    some (.structUnion ⟨.struct, "list", some ⟨8, [], [], [⟨2⟩]⟩⟩),
    some (.member ⟨"next", ⟨0⟩, 0, 0⟩),
    some (.pointerReference ⟨.pointer, ⟨4⟩⟩),
    some (.structUnion ⟨.struct, "list", some ⟨bytesize, [], [], [⟨5⟩]⟩⟩),
    some (.member ⟨"next", ⟨3⟩, 0, 0⟩)]

theorem twoLists_is {bytesize : UInt64} {id : Id} (set : (twoLists bytesize).Is id) :
    id = ⟨0⟩ ∨ id = ⟨1⟩ ∨ id = ⟨2⟩ ∨ id = ⟨3⟩ ∨ id = ⟨4⟩ ∨ id = ⟨5⟩ := by
  have inside := set.lt
  obtain ⟨ix⟩ := id
  simp only [twoLists, List.length_cons, List.length_nil, Id.mk.injEq] at inside ⊢
  omega

theorem twoLists_references (bytesize : UInt64) : (twoLists bytesize).ReferencesSet := by
  intro id node got
  rcases twoLists_is ⟨node, got⟩ with rfl | rfl | rfl | rfl | rfl | rfl
  all_goals
    cases got
    simp [Node.references, Graph.Is, Graph.get, twoLists]

theorem twoLists_resolves (bytesize : UInt64) : (twoLists bytesize).Resolves := by
  refine ⟨fun id set => ⟨3, ?_⟩, fun id set => ⟨3, ?_⟩, fun id set => ⟨3, ?_⟩⟩
  all_goals
    rcases twoLists_is set with rfl | rfl | rfl | rfl | rfl | rfl
    all_goals exact ⟨_, rfl⟩

theorem compare_decides_alike_lists :
    ∃ enough, ∀ fuel, enough ≤ fuel → ∃ equals comparison s',
      runCompare (twoLists 8) {} fuel {} ⟨0⟩ ⟨3⟩ = .ok ((equals, comparison), s') ∧
      (equals = true ↔ ∀ c, ReflTransGen (ChildEdge (twoLists 8) {}) (some ⟨0⟩, some ⟨3⟩) c →
        ¬ LocalDifference (twoLists 8) {} c) :=
  compare_decides_alike (twoLists_references 8) (twoLists_resolves 8) {} .new ⟨_, rfl⟩ ⟨_, rfl⟩

end Stg
