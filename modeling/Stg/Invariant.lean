import Stg.Child
import Stg.Conclude

set_option autoImplicit false

/- What the stores of a comparison mean between two calls of `Compare`. -/
namespace Stg

open PathScc
open Relation (ReflTransGen)

/-- The comparison that a removed or an added node is recorded under. -/
def Step.sided : Step → Option Comparison
  | .removed _ node => some (some node, none)
  | .added _ node => some (none, some node)
  | _ => none

/-- The detail that a step leaves behind, given which comparisons keep their edge. -/
def Step.detail (kept : Comparison → Bool) : Step → Option DiffDetail
  | .note text => some ⟨text, none⟩
  | .incomparable => none
  | .removed text node => some ⟨text, some (some node, none)⟩
  | .added text node => some ⟨text, some (none, some node)⟩
  | .compare text node1 node2 =>
    if kept (some node1, some node2) then some ⟨text, some (some node1, some node2)⟩ else none

/-- Whether the step is a change of the node itself. -/
def Step.isChange : Step → Bool
  | .note _ | .incomparable => true
  | _ => false

def diffOf (holdsChanges : Bool) (steps : List Step) (kept : Comparison → Bool) : Diff where
  holdsChanges := holdsChanges
  hasChanges := steps.any Step.isChange
  details := steps.filterMap (Step.detail kept)

def Plan.diff (plan : Plan) (kept : Comparison → Bool) : Diff :=
  diffOf plan.holdsChanges plan.steps kept

theorem diffOf_congr {holdsChanges : Bool} {steps : List Step} {kept kept' : Comparison → Bool}
    (same : ∀ step ∈ steps, ∀ child, step.child = some child → kept child = kept' child) :
    diffOf holdsChanges steps kept = diffOf holdsChanges steps kept' := by
  simp only [diffOf, Diff.mk.injEq, true_and]
  refine List.filterMap_congr fun step present => ?_
  cases step with
  | compare text node1 node2 => simp only [Step.detail, same _ present _ rfl]
  | _ => rfl

theorem diffOf_concat (holdsChanges : Bool) (steps : List Step) (step : Step)
    (kept : Comparison → Bool) :
    diffOf holdsChanges (steps ++ [step]) kept =
      { holdsChanges
        hasChanges := step.isChange || (diffOf holdsChanges steps kept).hasChanges
        details := (diffOf holdsChanges steps kept).details ++ (step.detail kept).toList } := by
  simp only [diffOf, List.any_append, List.any_cons, List.any_nil, Bool.or_comm,
    List.filterMap_append, Diff.mk.injEq, true_and, List.append_cancel_left_eq]
  cases held : step.detail kept <;> simp [held]

namespace State

/-- An edge stays in the differences unless its target is known to be equal. -/
def kept (s : State) (c : Comparison) : Bool := s.known.lookup c ≠ some true

def config (s : State) : Config Comparison := s.scc.config (s.known.lookup · ≠ none)

/-- The comparison has been opened at some time. -/
def Met (s : State) (c : Comparison) : Prop := s.known.lookup c ≠ none ∨ c ∈ s.scc.open_

end State

section

variable (graph : Graph) (options : CompareOptions)

/-- Every comparison met lies in `R`, known verdicts are final and justified, and
the stores hold the differences of exactly the comparisons known to be unequal. -/
structure State.Inv (R : Comparison → Prop) (s : State) : Prop where
  valid : s.scc.Valid
  walk : Walk (ChildEdge graph options) s.config
  met : ∀ c, s.Met c → R c ∧ ∃ plan, Plans graph options c plan
  equal : ∀ c, s.known.lookup c = some true → ¬ LocalDifference graph options c ∧
    ∀ child, ChildEdge graph options c child → s.known.lookup child = some true
  unequal : ∀ c, s.known.lookup c = some false →
    ∃ d, ReflTransGen (ChildEdge graph options) c d ∧ LocalDifference graph options d
  recorded : ∀ c plan, s.known.lookup c = some false → Plans graph options c plan →
    s.outcomes.lookup c = some (plan.diff s.kept)
  outcomes : ∀ c diff, s.outcomes.lookup c = some diff → s.known.lookup c = some false ∨
    diff = {} ∧ ∃ d plan, s.Met d ∧ Plans graph options d plan ∧
      ∃ step ∈ plan.steps, step.sided = some c
  sided : ∀ c plan, s.known.lookup c ≠ none → Plans graph options c plan →
    ∀ step ∈ plan.steps, ∀ k, step.sided = some k → s.outcomes.lookup k = some {}
  provisional : ∀ c, s.provisional.lookup c ≠ none → c ∈ s.scc.open_

/-- An open comparison whose steps have all been run. -/
def State.Finished (s : State) (c : Comparison) : Prop :=
  ∀ plan, Plans graph options c plan → s.provisional.lookup c = some (plan.diff s.kept) ∧
    ∀ step ∈ plan.steps, ∀ k, step.sided = some k → s.outcomes.lookup k = some {}

/-- Neither the comparison nor a child of it with a verdict is different. -/
def State.Good (s : State) (c : Comparison) : Prop :=
  ¬ LocalDifference graph options c ∧
    ∀ child, ChildEdge graph options c child → s.known.lookup child ≠ some false

/-- What the stores keep from one moment of a run to a later one. -/
structure State.Later (s s' : State) : Prop where
  opened : s.scc.open_ <+: s'.scc.open_
  known : ∀ c verdict, s.known.lookup c = some verdict → s'.known.lookup c = some verdict
  outcomes : ∀ c diff, s.outcomes.lookup c = some diff → s'.outcomes.lookup c = some diff
  provisional : ∀ c ∈ s.scc.open_, s'.provisional.lookup c = s.provisional.lookup c

/-- What a call of `Compare` on `p` answers and leaves behind. -/
structure Called (R : Comparison → Prop) (s : State) (p : Comparison) (answer : Answer)
    (s' : State) : Prop where
  inv : s'.Inv graph options R
  visited : Visited (ChildEdge graph options) s.config s'.config p
  later : s.Later s'
  finished : ∀ (i : Nat) (u : Comparison), s.scc.open_.length ≤ i → s'.scc.open_[i]? = some u →
    s'.Finished graph options u
  noted : answer.2 = if s'.known.lookup p = some true then none else some p
  verdict : answer.1 = true ↔ s'.known.lookup p ≠ some false ∧
    ∀ (i : Nat) (u : Comparison), s.scc.open_.length ≤ i → s'.scc.open_[i]? = some u →
      s'.Good graph options u

end

variable {graph : Graph} {options : CompareOptions} {R : Comparison → Prop} {s s' s'' : State}
  {c child p : Comparison} {plan : Plan}

theorem State.Later.refl (s : State) : s.Later s :=
  ⟨List.prefix_refl _, fun _ _ held => held, fun _ _ held => held, fun _ _ => rfl⟩

theorem State.Later.trans (first : s.Later s') (second : s'.Later s'') : s.Later s'' where
  opened := first.opened.trans second.opened
  known := fun c verdict held => second.known c verdict (first.known c verdict held)
  outcomes := fun c diff held => second.outcomes c diff (first.outcomes c diff held)
  provisional := fun c present =>
    (second.provisional c (first.opened.subset present)).trans (first.provisional c present)

theorem State.Inv.apart (inv : s.Inv graph options R) (present : c ∈ s.scc.open_) :
    s.known.lookup c = none := by
  by_contra known
  exact inv.walk.apart c present known

/-- While a comparison stays open the verdicts of its explored children do not change. -/
theorem State.Inv.child_stable (inv : s.Inv graph options R) (inv' : s'.Inv graph options R)
    (later : s.Later s') (linked : Linked s.config c child) :
    s'.known.lookup child = s.known.lookup child := by
  rcases linked with known | ⟨i, j, _, at_, _⟩
  · obtain ⟨verdict, held⟩ := Option.ne_none_iff_exists'.mp known
    rw [held, later.known child verdict held]
  · have present : child ∈ s.scc.open_ := List.mem_of_getElem? at_
    rw [inv.apart present, inv'.apart (later.opened.subset present)]

theorem State.Inv.finished_later (inv : s.Inv graph options R) (inv' : s'.Inv graph options R)
    (later : s.Later s') (present : c ∈ s.scc.open_)
    (linked : ∀ child, ChildEdge graph options c child → Linked s.config c child)
    (finished : s.Finished graph options c) : s'.Finished graph options c := by
  intro plan plans
  obtain ⟨stored, sided⟩ := finished plan plans
  refine ⟨?_, fun step among k side => later.outcomes k _ (sided step among k side)⟩
  rw [later.provisional c present, stored]
  congr 1
  refine diffOf_congr fun step among child isChild => ?_
  have edge := plans.childEdge.mpr (List.mem_filterMap.mpr ⟨step, among, isChild⟩)
  simp only [State.kept, inv.child_stable inv' later (linked child edge)]

theorem State.Inv.good_later (inv : s.Inv graph options R) (inv' : s'.Inv graph options R)
    (later : s.Later s')
    (linked : ∀ child, ChildEdge graph options c child → Linked s.config c child) :
    s'.Good graph options c ↔ s.Good graph options c := by
  refine and_congr_right fun _ => forall_congr' fun child => forall_congr' fun edge => ?_
  rw [inv.child_stable inv' later (linked child edge)]

/-- The comparisons that are known to be equal reach no difference. -/
theorem State.Inv.alike (inv : s.Inv graph options R) (known : s.known.lookup c = some true) :
    Alike graph options c :=
  Reach.Safe.coinduct (R := fun d => s.known.lookup d = some true)
    (fun _ known => (inv.equal _ known).1)
      (fun _ d known edge => (inv.equal _ known).2 d edge) known

theorem State.Inv.verdict_iff (inv : s.Inv graph options R) {verdict : Bool}
    (known : s.known.lookup c = some verdict) : verdict = true ↔ Alike graph options c := by
  cases verdict with
  | true => simpa using inv.alike known
  | false =>
    obtain ⟨d, path, different⟩ := inv.unequal c known
    simpa using fun alike : Alike graph options c => alike d path different

theorem State.Inv.new (graph : Graph) (options : CompareOptions) (R : Comparison → Prop) :
    State.Inv graph options R {} where
  valid := Scc.Valid.new
  walk := by
    refine ⟨Scc.Valid.new.stacked, ?_, ?_, ?_, ?_⟩ <;> simp [State.config, Scc.config]
  met := by simp [State.Met]
  equal := by simp
  unequal := by simp
  recorded := by simp
  outcomes := by simp
  sided := by simp
  provisional := by simp

end Stg
