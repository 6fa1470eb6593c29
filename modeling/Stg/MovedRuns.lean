import Stg.MovedReports
import Stg.Stgdiff
import Stg.Decision

set_option autoImplicit false

/- Runs of the program on the same nodes under other ids write the same texts and return
the same. -/
namespace Stg

open Relational (Lifting)

variable {π : Equiv.Perm Id} {graph graph' : Graph} {inside : Id → Prop} {options : CompareOptions}
  {fuel : Nat}

section Report

variable {L : Lifting Error NameM NameM} {outcomes : Outcomes}

theorem flatText_move (moves : PrintsMove L π graph graph' outcomes inside) (full : Bool)
    (fuel : Nat)
    {c : Comparison} (within : c.Inside inside) :
    L.rel (fun out out' => render out'.1.pieces = render out.1.pieces)
      ((reportFlat graph outcomes full fuel c).run {})
      ((reportFlat graph' (Outcomes.move π outcomes) full fuel (Comparison.move π c)).run {}) := by
  refine L.imp (reportFlat_move moves full fuel within {} {} ⟨rfl, nofun⟩) ?_
  rintro ⟨report, _⟩ ⟨report', _⟩ ⟨same, _⟩
  rw [show report' = report.move π from same, FlatReport.pieces_move, render_move]

/-- In every format the text about the same nodes under other ids is the same. -/
theorem report_move (moves : PrintsMove L π graph graph' outcomes inside)
    (options : ReportingOptions)
    (fuel : Nat) {c : Comparison} (within : c.Inside inside) :
    L.rel Equally (report graph outcomes options fuel c)
      (report graph' (Outcomes.move π outcomes) options fuel (Comparison.move π c)) := by
  obtain ⟨format, maxCRCOnlyChanges⟩ := options
  cases format with
  | plain =>
    refine L.bind (reportPlain_move moves fuel within ∅ ∅ rfl) ?_
    rintro ⟨pieces, _⟩ ⟨_, _⟩ ⟨rfl, _⟩
    exact L.pure (render_move pieces)
  | flat =>
    refine L.bind (flatText_move moves true fuel within) ?_
    rintro ⟨report, _⟩ ⟨report', _⟩ same
    exact L.pure same
  | small =>
    refine L.bind (flatText_move moves false fuel within) ?_
    rintro ⟨report, _⟩ ⟨report', _⟩ same
    exact L.pure same
  | short =>
    refine L.bind (flatText_move moves false fuel within) ?_
    rintro ⟨report, _⟩ ⟨report', _⟩ same
    dsimp only at same ⊢
    rw [same]
    refine L.bind (ofExcept_same rfl) ?_
    rintro _ lines rfl
    exact L.pure rfl
  | viz =>
    refine L.bind (reportViz_move moves fuel within {} {} rfl) ?_
    rintro ⟨text, _⟩ ⟨_, _⟩ ⟨rfl, _⟩
    exact L.pure rfl

end Report

section Inside

/-- Nodes that are inside refer to such nodes only, and there are ids beyond them. -/
structure Graph.Region (graph : Graph) (inside : Id → Prop) : Prop where
  closed : ∀ id next, inside id → graph.Refers id next → inside next
  bounded : ∃ bound, ∀ id, inside id → id.ix < bound

theorem Graph.Region.moved_swap (region : graph.Region inside) {one other : Id} (out : ¬ inside one)
    (out' : ¬ inside other) : graph.Moved graph (Equiv.swap one other) inside where
  closed := region.closed
  get id within := by
    have fixed : ∀ id, inside id → Equiv.swap one other id = id := fun id within =>
      Equiv.swap_apply_of_ne_of_ne (fun same => out (same ▸ within)) fun same =>
        out' (same ▸ within)
    rw [fixed id within]
    cases got : graph.get id with
    | error => rfl
    | ok node =>
      have same := Node.rename_self fun next among =>
        fixed next (region.closed id next within ⟨node, got, among⟩)
      rw [Except.map, same]

theorem Graph.Region.beyond (region : graph.Region inside) (id : Id) : ∃ other, other ≠ id ∧
    ¬ inside other := by
  obtain ⟨bound, below⟩ := region.bounded
  refine ⟨⟨bound + id.ix + 1⟩, ?_, fun within => ?_⟩
  · intro same
    have ixs := congrArg Id.ix same
    simp only at ixs
    omega
  · have short := below _ within
    simp only at short
    omega

theorem Outcomes.move_fixed {outcomes : Outcomes} (fixed : Outcomes.move π outcomes = outcomes)
    {c : Comparison} {diff : Diff} (held : outcomes.lookup c = some diff) :
    Comparison.move π c = c ∧ diff.move π = diff := by
  have entries := congrArg AList.entries fixed
  have each := List.map_inj_left.mp (entries.trans (List.map_id _).symm) ⟨c, diff⟩
    (AList.mem_lookup_iff.mp held)
  injection each with keys values
  exact ⟨keys, values⟩

theorem Comparison.avoids_of_fixed {one other : Id} (apart : other ≠ one) {c : Comparison}
    (fixed : Comparison.move (Equiv.swap one other) c = c) : ¬ one ∈ c.1 ∧ ¬ one ∈ c.2 := by
  have moves : ∀ held : Option Id, held.map (Equiv.swap one other) = held → ¬ one ∈ held := by
    rintro _ same rfl
    simp only [Option.map_some, Equiv.swap_apply_left, Option.some.injEq] at same
    exact apart same
  exact ⟨moves c.1 (congrArg Prod.fst fixed), moves c.2 (congrArg Prod.snd fixed)⟩

/-- Comparing nodes of a part meets no node outside: such a node could as well have
another id, under which everything would be the same. -/
theorem Graph.Region.outcomes_inside (region : graph.Region inside) {root1 root2 : Id}
    (within1 : inside root1)
    (within2 : inside root2) {answer : Answer} {s : State}
    (ran : runCompare graph options fuel {} root1 root2 = .ok (answer, s)) {c : Comparison}
    {diff : Diff}
    (held : s.outcomes.lookup c = some diff) :
    c.Inside inside ∧ ∀ detail ∈ diff.details, ∀ edge ∈ detail.edge,
      Comparison.Inside inside edge := by
  have avoids : ∀ one, ¬ inside one → (¬ one ∈ c.1 ∧ ¬ one ∈ c.2) ∧
      ∀ detail ∈ diff.details, ∀ edge ∈ detail.edge, ¬ one ∈ edge.1 ∧ ¬ one ∈ edge.2 := by
    intro one out
    obtain ⟨other, apart, out'⟩ := region.beyond one
    have fixed : ∀ id, inside id → Equiv.swap one other id = id := fun id within =>
      Equiv.swap_apply_of_ne_of_ne (fun same => out (same ▸ within)) fun same =>
        out' (same ▸ within)
    have again : runCompare graph options fuel (State.move (Equiv.swap one other) {}) _ _ = _ :=
      runCompare_move (region.moved_swap out out') within1 within2 {}
    rw [fixed root1 within1, fixed root2 within2, ran] at again
    have same : s = s.move (Equiv.swap one other) := by
      have started : runCompare graph options fuel {} root1 root2 = .ok (answer, s) := ran
      exact congrArg Prod.snd (Except.ok.inj (started.symm.trans again))
    obtain ⟨key, value⟩ := Outcomes.move_fixed (congrArg State.outcomes same).symm held
    refine ⟨Comparison.avoids_of_fixed apart key, fun detail among edge held' => ?_⟩
    have details := List.map_inj_left.mp
      ((congrArg Diff.details value).trans (List.map_id _).symm) detail among
    have moved : detail.edge.map (Comparison.move (Equiv.swap one other)) = detail.edge :=
      congrArg DiffDetail.edge details
    rw [show detail.edge = some edge from held'] at moved
    exact Comparison.avoids_of_fixed apart (Option.some.inj moved)
  have within : ∀ d : Comparison, (∀ one, ¬ inside one → ¬ one ∈ d.1 ∧ ¬ one ∈ d.2) →
      d.Inside inside := fun d apart =>
    ⟨fun id among => not_not.mp fun out => (apart id out).1 among,
      fun id among => not_not.mp fun out => (apart id out).2 among⟩
  exact ⟨within c fun one out => (avoids one out).1, fun detail among edge held' =>
    within edge fun one out => (avoids one out).2 detail among edge held'⟩

/-- What is to be reported is a comparison of the roots. -/
theorem runCompare_inside {root1 root2 : Id} (within1 : inside root1) (within2 : inside root2)
    {answer : Answer} {s : State}
    (ran : runCompare graph options fuel {} root1 root2 = .ok (answer, s)) :
    ∀ c ∈ answer.2, Comparison.Inside inside c := by
  intro c held
  obtain ⟨_, _, verdict, _, rfl⟩ := runCompare_fresh ran
  cases verdict with
  | true => cases held
  | false =>
    cases held
    constructor
    · rintro _ ⟨⟩
      exact within1
    · rintro _ ⟨⟩
      exact within2

end Inside

namespace Stgdiff

variable {env env' : Environment}

theorem reportDiffs_move {outcomes : Outcomes}
    (moves : PrintsMove (naming π) π graph graph' outcomes inside) {comparison : Option Comparison}
    (within : ∀ c ∈ comparison, Comparison.Inside inside c) (format : OutputFormat)
    (names : NameCache) :
    (reportDiffs graph' (Outcomes.move π outcomes) fuel
        (comparison.map (Comparison.move π)) format).run (NameCache.move π names) =
      ((reportDiffs graph outcomes fuel comparison format).run names).map
        fun out => (out.1, NameCache.move π out.2) := by
  have same : (naming π).rel Equally (reportDiffs graph outcomes fuel comparison format)
      (reportDiffs graph' (Outcomes.move π outcomes) fuel
        (comparison.map (Comparison.move π)) format) := by
    cases comparison with
    | none => exact (naming π).pure rfl
    | some c => exact report_move moves _ fuel (within c rfl)
  rw [← Lifting.exactly_map]
  refine (Lifting.exactly Error).imp (same names _ rfl) ?_
  rintro ⟨text, names⟩ ⟨_, _⟩ ⟨rfl, moved⟩
  exact Prod.ext rfl moved

theorem writeReports_move {outcomes : Outcomes}
    (moves : PrintsMove (naming π) π graph graph' outcomes inside) {comparison : Option Comparison}
    (within : ∀ c ∈ comparison, Comparison.Inside inside c) (writes : env'.writes = env.writes)
    (outputs : Outputs) (names : NameCache) :
    writeReports env' graph' (Outcomes.move π outcomes) fuel (comparison.map (Comparison.move π))
        outputs (NameCache.move π names) =
      writeReports env graph outcomes fuel comparison outputs names := by
  induction outputs generalizing names with
  | nil => rfl
  | cons output outputs ih =>
    obtain ⟨format, filename⟩ := output
    rw [writeReports, writeReports, reportDiffs_move moves within, writes]
    cases (reportDiffs graph outcomes fuel comparison format).run names with
    | error => rfl
    | ok out =>
      simp only [Except.map, ofExcept_ok, pure_bind, ih]

/-- A run depends on what the files say and not on the ids that the readers give to it. -/
theorem run_move (moved : graph.Moved graph' π inside) (region : graph.Region inside)
    {root1 root2 : Id}
    (within1 : inside root1) (within2 : inside root2) (writes : env'.writes = env.writes)
    {inputs inputs' : Inputs}
    (reads : readInputs env fuel inputs ⟨[]⟩ = .ok ([root1, root2], graph))
    (reads' : readInputs env' fuel inputs' ⟨[]⟩ = .ok ([π root1, π root2], graph'))
    (outputs : Outputs) :
    run env' fuel inputs' outputs options = run env fuel inputs outputs options := by
  have compares : runCompare graph' options fuel (State.move π {}) _ _ = _ :=
    runCompare_move moved within1 within2 {}
  unfold run
  rw [reads, reads']
  simp only [ofExcept_ok, pure_bind, List.getElem?_cons_zero, List.getElem?_cons_succ, deref]
  rw [show runCompare graph' options fuel {} (π root1) (π root2) = _ from compares]
  cases ran : runCompare graph options fuel {} root1 root2 with
  | error => rfl
  | ok out =>
    obtain ⟨⟨equals, comparison⟩, s⟩ := out
    have moves : PrintsMove (naming π) π graph graph' s.outcomes inside :=
      ⟨moved, fun fuel id => getDescription_move moved, fun c diff _ held =>
        (region.outcomes_inside within1 within2 ran held).2⟩
    have within := runCompare_inside within1 within2 ran
    have empties : sccEmpty (s.move π).scc = sccEmpty s.scc := by
      simp only [sccEmpty, State.move, Scc.move, List.isEmpty_map, Relabel.isEmpty_keys_relabel]
    have written : writeReports env' graph' _ fuel _ outputs _ = writeReports env _ _ _ _ _ _ :=
      writeReports_move moves within writes outputs ∅
    simp only [Except.map, ofExcept_ok, pure_bind, moveAnswer, empties]
    rw [← written]
    rfl

end Stgdiff

end Stg
