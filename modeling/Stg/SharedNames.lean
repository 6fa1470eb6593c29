import Mathlib.Algebra.Order.BigOperators.Group.List
import Stg.CTypes
import Stg.Completion

set_option autoImplicit false

/- The outputs of a run share a cache of names. Where naming reaches no cycle, that does
not show. -/
namespace Stg

open Relation (ReflTransGen TransGen)
open Relational (Lifting)

variable {graph : Graph} {fuel : Nat} {inside : Id → Prop} {outcomes : Outcomes}

/-- Both caches hold rendered names only. -/
abbrev BothRender (graph : Graph) (names names' : NameCache) : Prop :=
  RendersApart graph [] names ∧ RendersApart graph [] names'

/-- Where both computations return, the values are related and the caches hold rendered
names. -/
abbrev apart (graph : Graph) : Lifting Error NameM NameM := (Lifting.both Error).state (BothRender graph)

/-- Names that are made of lower ranking ones reach no cycle. -/
theorem namesFinitely_of_rank (rank : Id → Nat)
    (falls : ∀ id part, graph.NamedBy id part → rank part < rank id) (id : Id) :
    graph.NamesFinitely id := by
  intro other _ cycle
  have lower : ∀ part, TransGen graph.NamedBy other part → rank part < rank other := by
    intro part path
    induction path with
    | single edge => exact falls _ _ edge
    | tail _ edge ih => exact Nat.lt_trans (falls _ _ edge) ih
  exact Nat.lt_irrefl _ (lower other cycle)

theorem getDescription_apart {id : Id} (finite : graph.NamesFinitely id) :
    (apart graph).rel Equally (getDescription graph fuel id) (getDescription graph fuel id) := by
  rintro names names' ⟨renders, renders'⟩ ⟨name, after⟩ ⟨name', after'⟩ ran ran'
  obtain ⟨kept, rendered⟩ := getDescription_agrees [] id nofun names name after renders ran
  obtain ⟨kept', rendered'⟩ := getDescription_agrees [] id nofun names' name' after' renders' ran'
  exact ⟨(rendered finite).unique (rendered' finite) ▸ rfl, kept, kept'⟩

theorem Graph.Moved.refl (closed : ∀ id next, inside id → graph.Refers id next → inside next) :
    graph.Moved graph (Equiv.refl Id) inside where
  closed := closed
  get id _ := by
    cases got : graph.get id with
    | error => simp [got, Except.map]
    | ok node => simp [got, Except.map, Node.rename_self]

theorem Comparison.move_refl :
    Comparison.move (Equiv.refl Id) = Function.Embedding.refl Comparison := by
  apply Function.Embedding.ext
  rintro ⟨_ | _, _ | _⟩ <;> rfl

theorem Diff.move_refl (diff : Diff) : diff.move (Equiv.refl Id) = diff := by
  have each (detail : DiffDetail) : detail.move (Equiv.refl Id) = detail := by
    obtain ⟨text, edge⟩ := detail
    cases edge <;> simp [DiffDetail.move, Comparison.move_refl]
  obtain ⟨holdsChanges, hasChanges, details⟩ := diff
  rw [Diff.move, funext each]
  simp

theorem Outcomes.move_refl (outcomes : Outcomes) :
    Outcomes.move (Equiv.refl Id) outcomes = outcomes := by
  unfold Outcomes.move
  rw [Comparison.move_refl]
  exact Relabel.relabel_id _ Diff.move_refl

/-- The nodes of a part have names that reach no cycle, and the outcomes are about them. -/
structure Apart (graph : Graph) (outcomes : Outcomes) (inside : Id → Prop) : Prop where
  closed : ∀ id next, inside id → graph.Refers id next → inside next
  finite : ∀ id, inside id → graph.NamesFinitely id
  edges : ∀ c diff, outcomes.lookup c = some diff → ∀ detail ∈ diff.details, ∀ edge ∈ detail.edge,
    Comparison.Inside inside edge

/-- A report does not depend on the names that the reports before it have left. -/
theorem Apart.report (separate : Apart graph outcomes inside) (options : ReportingOptions)
    (fuel : Nat)
    {c : Comparison} (within : c.Inside inside) :
    (apart graph).rel Equally (report graph outcomes options fuel c)
      (report graph outcomes options fuel c) := by
  have moves : PrintsMove (apart graph) (Equiv.refl Id) graph graph outcomes inside :=
    ⟨.refl separate.closed, fun _ id among => getDescription_apart (separate.finite id among),
      fun c diff _ held => separate.edges c diff held⟩
  have same := report_move moves options fuel within
  rwa [Outcomes.move_refl, Comparison.move_refl] at same

section Roots

/-- What is reached from one of the roots. -/
def Graph.From (graph : Graph) (root1 root2 id : Id) : Prop :=
  ReflTransGen graph.Refers root1 id ∨ ReflTransGen graph.Refers root2 id

theorem Graph.from_region (graph : Graph) (root1 root2 : Id) :
    graph.Region (graph.From root1 root2) where
  closed id next from_ refers := from_.imp (·.tail refers) (·.tail refers)
  bounded := by
    let mentioned := graph.nodes.flatMap fun slot => (slot.map Node.references).getD []
    refine ⟨root1.ix + root2.ix + (mentioned.map Id.ix).sum + 1, fun id from_ => ?_⟩
    have bound : ∀ root, ReflTransGen graph.Refers root id →
        id = root ∨ id.ix ≤ (mentioned.map Id.ix).sum := by
      intro root path
      rcases Relation.ReflTransGen.cases_tail path with same | ⟨last, _, node, got, among⟩
      · exact .inl same
      · refine .inr (List.le_sum_of_mem
          (List.mem_map_of_mem (List.mem_flatMap.mpr ⟨some node, ?_, among⟩)))
        exact List.mem_of_getElem? (Graph.get_eq_ok.mp got)
    rcases from_ with path | path
    · rcases bound root1 path with rfl | below <;> omega
    · rcases bound root2 path with rfl | below <;> omega

end Roots

namespace Stgdiff

variable {env : Environment} {options : CompareOptions} {root1 root2 : Id}

/-- The text of an output of some run that compares the two roots, whatever outputs come
before it. -/
def Told (graph : Graph) (options : CompareOptions) (root1 root2 : Id) (format : OutputFormat)
    (text : String) : Prop :=
  ∃ fuel answer s names after, runCompare graph options fuel {} root1 root2 = .ok (answer, s) ∧
    RendersApart graph [] names ∧
    (reportDiffs graph s.outcomes fuel answer.2 format).run names = .ok (text, after)

variable (finite : ∀ id, graph.From root1 root2 id → graph.NamesFinitely id)

include finite

theorem reportDiffs_apart {fuel fuel' : Nat} {answer : Answer} {s : State}
    (ran : runCompare graph options fuel' {} root1 root2 = .ok (answer, s))
    (format : OutputFormat) :
    (apart graph).rel Equally (reportDiffs graph s.outcomes fuel answer.2 format)
      (reportDiffs graph s.outcomes fuel answer.2 format) := by
  have region := graph.from_region root1 root2
  have separate : Apart graph s.outcomes (graph.From root1 root2) := ⟨region.closed, finite,
    fun c diff held => (region.outcomes_inside (.inl .refl) (.inr .refl) ran held).2⟩
  have within := @runCompare_inside _ (graph.From root1 root2) _ _ _ _ (.inl .refl)
    (.inr .refl) _ _ ran
  cases compared : answer.2 with
  | none => exact (apart graph).pure rfl
  | some c => exact separate.report _ fuel (within c compared)

theorem Told.unique {format : OutputFormat} {text text' : String}
    (told : Told graph options root1 root2 format text)
    (told' : Told graph options root1 root2 format text') : text = text' := by
  obtain ⟨fuel, answer, s, names, after, ran, renders, reported⟩ := told
  obtain ⟨fuel', answer', s', names', after', ran', renders', reported'⟩ := told'
  have more := runCompare_more (le_max_left fuel fuel') _ _ _ _ ran
  have more' := runCompare_more (le_max_right fuel fuel') _ _ _ _ ran'
  cases more.symm.trans more'
  have one := reportDiffs_more (le_max_left fuel fuel') reported
  have two := reportDiffs_more (le_max_right fuel fuel') reported'
  exact (reportDiffs_apart finite ran format names names' ⟨renders, renders'⟩ _ _ one two).1.symm

/-- The text of an output does not depend on the outputs before it. -/
theorem writeReports_told {fuel : Nat} {answer : Answer} {s : State}
    (ran : runCompare graph options fuel {} root1 root2 = .ok (answer, s))
    {text : OutputFormat → String}
    (told : ∀ format told, Told graph options root1 root2 format told → text format = told)
    {outputs : Outputs} {names : NameCache} (renders : RendersApart graph [] names)
    {written written' : List (String × String)}
    (wrote : (writeReports env graph s.outcomes fuel answer.2 outputs names).run written = .ok ()
      written') :
    written' = written ++ outputs.map fun output => (output.2, text output.1) := by
  induction outputs generalizing names written with
  | nil =>
    cases wrote
    exact (List.append_nil _).symm
  | cons output outputs ih =>
    obtain ⟨format, filename⟩ := output
    obtain ⟨⟨own, names'⟩, reported, wrote⟩ := ok_of_ofExcept_bind wrote
    obtain ⟨_, unchanged, checked, wrote⟩ := EStateM.ok_of_run_bind wrote
    obtain ⟨_, after, noted, wrote⟩ := EStateM.ok_of_run_bind wrote
    obtain rfl := check_run checked
    cases noted
    have kept := (reportDiffs_apart finite ran format names names ⟨renders, renders⟩
      _ _ reported reported).2.1
    have same := told format own ⟨fuel, answer, s, names, names', ran, renders, reported⟩
    rw [ih kept wrote, List.map_cons, List.append_assoc, same]
    rfl

/-- Where no name that the comparison of two inputs can need is about itself, what an output
says depends on its format only: not on which other outputs are written, in which order, or
to which files. -/
theorem main_outputs {env : Environment} {fuel₀ : Nat} {input1 input2 : InputFormat × String}
    (reads : readInputs env fuel₀ [input1, input2] ⟨[]⟩ = .ok ([root1, root2], graph))
    (options : CompareOptions) :
    ∃ text : OutputFormat → String, ∀ program arguments settings fuel ending,
      processArguments arguments = some settings → settings.inputs = [input1, input2] →
      settings.compareOptions = options → main env fuel program arguments = .ok ending →
      ending.status ≠ 1 →
      ending.written = settings.outputs.map fun output => (output.2, text output.1) := by
  classical
  let text (format : OutputFormat) : String :=
    if told : ∃ text, Told graph options root1 root2 format text then told.choose else ""
  have spoken : ∀ format told, Told graph options root1 root2 format told → text format = told := by
    intro format own told
    have some_ : ∃ text, Told graph options root1 root2 format text := ⟨own, told⟩
    rw [show text format = some_.choose from dif_pos some_]
    exact some_.choose_spec.unique finite told
  refine ⟨text, fun program arguments settings fuel ending parsed inputs same ended succeeded => ?_⟩
  obtain ⟨input1', input2', equals, compared⟩ := compared_of_status parsed ended succeeded
  have both := compared.inputs
  rw [inputs] at both
  cases both
  have ran := run_more (le_max_right fuel₀ fuel) compared.ran
  rw [(run_of_readInputs reads).2.2 _ (le_max_left fuel₀ fuel), same, compareReport] at ran
  obtain ⟨⟨⟨verdict, comparison⟩, s⟩, compares, ran⟩ := ok_of_ofExcept_bind ran
  obtain ⟨_, unchanged, checked, ran⟩ := EStateM.ok_of_run_bind ran
  obtain ⟨_, after, wrote, returned⟩ := EStateM.ok_of_run_bind ran
  obtain rfl := check_run checked
  have last : after = ending.written :=
    (EStateM.Result.ok.inj (show EStateM.Result.ok verdict after = _ from returned)).2
  rw [← last]
  have unnamed : RendersApart graph [] ∅ := fun id name _ _ held => by cases held
  exact writeReports_told finite compares spoken unnamed wrote

omit finite

theorem pointerThenInt_finite (id : Id) : pointerThenInt.NamesFinitely id := by
  refine namesFinitely_of_rank (fun id => [1, 0, 2, 0, 0, 1, 2, 0].getD id.ix 0) ?_ id
  rintro id part ⟨node, got, among⟩
  obtain ⟨ix, rfl⟩ : ∃ ix : Fin 8, id = ⟨ix⟩ := ⟨⟨id.ix, Graph.Is.lt ⟨node, got⟩⟩, rfl⟩
  fin_cases ix
  all_goals
    cases got
    revert part
    decide

theorem main_outputs_variables : ∃ text : OutputFormat → String,
    ∀ program arguments settings fuel ending, processArguments arguments = some settings →
      settings.inputs = [(.abi, "forwards.xml"), (.abi, "int.xml")] → settings.compareOptions = {} →
      main variableFiles fuel program arguments = .ok ending → ending.status ≠ 1 →
      ending.written = settings.outputs.map fun output => (output.2, text output.1) := by
  have reads : readInputs variableFiles 20 [(.abi, "forwards.xml"), (.abi, "int.xml")] ⟨[]⟩ =
      .ok ([⟨3⟩, ⟨7⟩], pointerThenInt) := readInputs_of_nodes (by decide +kernel)
  exact main_outputs (fun id _ => pointerThenInt_finite id) reads {}

end Stgdiff

end Stg
