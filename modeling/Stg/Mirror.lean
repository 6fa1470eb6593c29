import Stg.Examined
import Mathlib.Data.List.Zip

set_option autoImplicit false

/- Comparing in the other direction: every step of an examination has a mirror image
in the examination of the swapped pair, up to the order and the texts. -/
namespace Stg

open Relation (ReflTransGen)

/-- The step without its text. -/
def Step.bare : Step → Step
  | .note _ => .note ""
  | .incomparable => .incomparable
  | .removed _ node => .removed "" node
  | .added _ node => .added "" node
  | .compare _ node1 node2 => .compare "" node1 node2

/-- The step with the two sides swapped, without its text. -/
def Step.mirror : Step → Step
  | .note _ => .note ""
  | .incomparable => .incomparable
  | .removed _ node => .added "" node
  | .added _ node => .removed "" node
  | .compare _ node1 node2 => .compare "" node2 node1

/-- The second list of steps is what the first one becomes in the other direction. -/
def Mirrored (steps steps' : List Step) : Prop :=
  (steps'.map Step.bare).Perm (steps.map Step.mirror)

/-- The plans of the two directions. -/
structure Plan.Mirrors (plan plan' : Plan) : Prop where
  holdsChanges : plan'.holdsChanges = plan.holdsChanges
  steps : Mirrored plan.steps plan'.steps

section Steps

variable {α : Type} [DecidableEq α] [Print α] {steps steps' more more' : List Step}

theorem Mirrored.of_eq (same : steps'.map Step.bare = steps.map Step.mirror) :
    Mirrored steps steps' := List.Perm.of_eq same

/-- The parts may be permuted, as long as each stays within its own. -/
theorem Mirrored.append (first : Mirrored steps steps') (second : Mirrored more more') :
    Mirrored (steps ++ more) (steps' ++ more') := by
  unfold Mirrored
  rw [List.map_append, List.map_append]
  exact List.Perm.append first second

theorem Mirrored.perm (mirrored : Mirrored steps steps') (left : more.Perm steps)
    (right : more'.Perm steps') : Mirrored more more' :=
  ((right.map _).trans mirrored).trans (left.map _).symm

/-- The texts of a change differ by direction, but there is one in both or in neither. -/
theorem mirrored_change (text : String) (before after : α) :
    Mirrored (change text before after) (change text after before) := by
  apply Mirrored.of_eq
  unfold change
  by_cases same : before = after
  · rw [if_neg (by simp [same]), if_neg (by simp [same])]
    rfl
  · rw [if_pos same, if_pos (Ne.symm same)]
    rfl

theorem mirrored_optionalChange (text : String) (before after : Option α) :
    Mirrored (optionalChange text before after) (optionalChange text after before) := by
  cases before <;> cases after
  case some.some => exact mirrored_change text _ _
  all_goals exact .of_eq rfl

theorem mirrored_statusChange (defined1 defined2 ignoreDiff : Bool) :
    Mirrored (statusChange defined1 defined2 ignoreDiff)
      (statusChange defined2 defined1 ignoreDiff) := by
  apply Mirrored.of_eq
  cases defined1 <;> cases defined2 <;> cases ignoreDiff <;> rfl

theorem mirrored_versionChange (version1 version2 : Option ElfSymbol.VersionInfo) :
    Mirrored (versionChange version1 version2) (versionChange version2 version1) := by
  cases version1 <;> cases version2
  case some.some => exact (mirrored_change _ _ _).append (mirrored_change _ _ _)
  all_goals exact mirrored_change _ _ _

theorem mirrored_symbolTypeSteps (ignoreDiff : Bool) (type1 type2 : Option Id) :
    Mirrored (symbolTypeSteps ignoreDiff type1 type2)
      (symbolTypeSteps ignoreDiff type2 type1) := by
  apply Mirrored.of_eq
  cases type1 <;> cases type2 <;> cases ignoreDiff <;> rfl

/-- Lists that are swept in the other direction give mirrored steps. -/
theorem mirrored_sweep {β γ κ : Type} [LinearOrder κ] {key1 : β → κ} {key2 : γ → κ}
    {steps1 : Option β × Option γ → List Step} {steps2 : Option γ × Option β → List Step}
    (each : ∀ item, Mirrored (steps1 item) (steps2 item.swap)) (xs : List β) (ys : List γ) :
    Mirrored ((Sweep.sweep key1 key2 xs ys).flatMap steps1)
      ((Sweep.sweep key2 key1 ys xs).flatMap steps2) := by
  rw [Sweep.sweep_swap key1 key2 xs ys, List.flatMap_map]
  induction Sweep.sweep key1 key2 xs ys with
  | nil => exact .of_eq rfl
  | cons item items ih =>
    rw [List.flatMap_cons, List.flatMap_cons]
    exact (each item).append ih

theorem mirrored_sweptStep (item : Option (String × Id) × Option (String × Id)) :
    Mirrored [sweptStep item] [sweptStep item.swap] := by
  apply Mirrored.of_eq
  rcases item with ⟨_ | _, _ | _⟩ <;> rfl

theorem mirrored_sweptEnumerator
    (item : Option (String × (String × Int64)) × Option (String × (String × Int64))) :
    Mirrored (sweptEnumerator item) (sweptEnumerator item.swap) := by
  match item with
  | (some enum1, some enum2) =>
    -- paired enumerators have the same name, but the texts are not compared
    apply Mirrored.of_eq
    simp only [Prod.swap_prod_mk, sweptEnumerator, change]
    by_cases same : enum1.2.2 = enum2.2.2
    · simp [same]
    · simp [same, Ne.symm same, Step.bare, Step.mirror]
  | (some enum1, none) => exact Mirrored.of_eq rfl
  | (none, some enum2) => exact Mirrored.of_eq rfl
  | (none, none) => exact Mirrored.of_eq rfl

end Steps

variable {graph : Graph} {options : CompareOptions} {fuel : Nat} {plan : Plan}

/-- Matching by keys is symmetric; only the order of the pairs depends on the side. -/
theorem nodeSteps_mirrored {nodes1 nodes2 : List Id} {reordered : Bool} {steps : List Step}
    (planned : nodeSteps graph fuel nodes1 nodes2 reordered = .ok steps) :
    ∃ steps', nodeSteps graph fuel nodes2 nodes1 reordered = .ok steps' ∧
      Mirrored steps steps' := by
  obtain ⟨keys1, found1, rest⟩ := bind_eq_ok planned
  obtain ⟨keys2, found2, _⟩ := bind_eq_ok rest
  obtain ⟨_, planned', perm⟩ := nodeSteps_perm found1 found2 reordered
  cases planned.symm.trans planned'
  obtain ⟨steps', planned', perm'⟩ := nodeSteps_perm found2 found1 reordered
  refine ⟨steps', planned', Mirrored.perm ?_ perm perm'⟩
  rw [List.map_eq_flatMap (f := sweptStep), List.map_eq_flatMap (f := sweptStep)]
  apply mirrored_sweep
  exact mirrored_sweptStep

theorem StructUnion.plan_mirrors {self other : StructUnion}
    (planned : self.plan graph options fuel other = .ok plan) :
    ∃ plan', other.plan graph options fuel self = .ok plan' ∧ plan.Mirrors plan' := by
  unfold StructUnion.plan at planned ⊢
  split at planned
  · rename_i differ
    cases planned
    rw [if_pos (differ.imp Ne.symm Ne.symm)]
    exact ⟨_, rfl, rfl, .of_eq rfl⟩
  rename_i same
  rw [if_neg (fun differ => same (differ.imp Ne.symm Ne.symm))]
  have name : self.name = other.name := by
    by_contra differ
    exact same (.inr differ)
  split at planned
  · rename_i definition1 definition2 defined1 defined2
    obtain ⟨baseClasses, planned1, rest1⟩ := bind_eq_ok planned
    obtain ⟨methods, planned2, rest2⟩ := bind_eq_ok rest1
    obtain ⟨members, planned3, rest3⟩ := bind_eq_ok rest2
    cases rest3
    obtain ⟨baseClasses', planned1', mirrored1⟩ := nodeSteps_mirrored planned1
    obtain ⟨methods', planned2', mirrored2⟩ := nodeSteps_mirrored planned2
    obtain ⟨members', planned3', mirrored3⟩ := nodeSteps_mirrored planned3
    rw [defined1, defined2]
    simp only [planned1', planned2', planned3', bind, Except.bind]
    refine ⟨_, rfl, by rw [name], ?_⟩
    exact (((mirrored_change _ _ _).append mirrored1).append mirrored2).append mirrored3
  · rename_i declared
    cases planned
    split
    · rename_i definition1 definition2 defined1 defined2
      exact absurd defined1 (declared _ _ defined2)
    · exact ⟨_, rfl, by rw [name], mirrored_statusChange _ _ _⟩

theorem Enumeration.plan_mirrors {self other : Enumeration}
    (planned : self.plan options other = .ok plan) :
    ∃ plan', other.plan options self = .ok plan' ∧ plan.Mirrors plan' := by
  unfold Enumeration.plan at planned ⊢
  split at planned
  · rename_i differ
    cases planned
    rw [if_pos (Ne.symm differ)]
    exact ⟨_, rfl, rfl, .of_eq rfl⟩
  rename_i same
  have name : self.name = other.name := not_not.mp same
  rw [if_neg (fun differ => differ name.symm)]
  split at planned
  · rename_i definition1 definition2 defined1 defined2
    obtain ⟨pairs, reordered, rest1⟩ := bind_eq_ok planned
    obtain ⟨enumerators, planned1, rest2⟩ := bind_eq_ok rest1
    cases rest2
    obtain ⟨_, _, reordered₁, planned₁, perm⟩ := enumeratorSteps_perm definition1 definition2
    cases reordered.symm.trans reordered₁
    cases planned1.symm.trans planned₁
    obtain ⟨pairs', enumerators', reordered', planned', perm'⟩ :=
      enumeratorSteps_perm definition2 definition1
    rw [defined1, defined2]
    simp only [reordered', planned', bind, Except.bind]
    refine ⟨_, rfl, by rw [name], ?_⟩
    apply Mirrored.append (mirrored_change _ _ _)
    apply Mirrored.perm _ perm.flatten perm'.flatten
    rw [← List.flatMap_def, ← List.flatMap_def]
    apply mirrored_sweep
    exact mirrored_sweptEnumerator
  · rename_i declared
    cases planned
    split
    · rename_i definition1 definition2 defined1 defined2
      exact absurd defined1 (declared _ _ defined2)
    · exact ⟨_, rfl, by rw [name], mirrored_statusChange _ _ _⟩

/-- The parameters beyond the shorter list are added in one direction and removed in the
other. -/
theorem unmatchedSteps_mirrored (parameters1 parameters2 : List Parameter) :
    Mirrored (unmatchedSteps parameters1 parameters2) (unmatchedSteps parameters2 parameters1) := by
  apply Mirrored.of_eq
  unfold unmatchedSteps
  rw [Nat.min_comm parameters2.length]
  rcases Nat.lt_trichotomy parameters1.length parameters2.length with less | equal | more
  · rw [if_pos less, if_neg (by omega)]
    simp only [List.map_map]
    rfl
  · have rest1 : parameters1.drop (min parameters1.length parameters2.length) = [] := by
      rw [List.drop_eq_nil_iff]
      omega
    have rest2 : parameters2.drop (min parameters1.length parameters2.length) = [] := by
      rw [List.drop_eq_nil_iff]
      omega
    rw [if_neg (by omega), if_neg (by omega), rest1, rest2]
    rfl
  · rw [if_pos more, if_neg (by omega)]
    simp only [List.map_map]
    rfl

theorem FunctionNode.plan_mirrors (self other : FunctionNode) :
    (self.plan other).Mirrors (other.plan self) where
  holdsChanges := rfl
  steps := by
    have returned : Mirrored [.compare "return" self.returnTypeId other.returnTypeId]
        [.compare "return" other.returnTypeId self.returnTypeId] := .of_eq rfl
    refine (returned.append (.of_eq ?_)).append (unmatchedSteps_mirrored _ _)
    rw [← List.zip_swap self.parameters, List.zipIdx_map, List.map_map, List.map_map, List.map_map]
    rfl

/-- The sweep in the other direction swaps the lists of removed and added symbols. -/
theorem Symbols.plan_mirrors (self other : Symbols) :
    (self.plan other).Mirrors (other.plan self) where
  holdsChanges := rfl
  steps := by
    have removed : ∀ item : Option (SymbolKey × Id) × Option (SymbolKey × Id),
        removedSymbol item.swap = addedSymbol item := by
      rintro ⟨_ | _, _ | _⟩ <;> rfl
    have added : ∀ item : Option (SymbolKey × Id) × Option (SymbolKey × Id),
        addedSymbol item.swap = removedSymbol item := by
      rintro ⟨_ | _, _ | _⟩ <;> rfl
    have both : ∀ item : Option (SymbolKey × Id) × Option (SymbolKey × Id),
        symbolsInBoth item.swap = (symbolsInBoth item).map Prod.swap := by
      rintro ⟨_ | _, _ | _⟩ <;> rfl
    unfold Mirrored Symbols.plan
    rw [Sweep.sweep_swap (·.1) (·.1) self.symbols other.symbols]
    simp only [List.filterMap_map, Function.comp_def, removed, added, both, List.map_append,
      List.map_map, ← List.map_filterMap]
    -- the removed symbols come first on both sides, so the two groups change places
    exact List.perm_append_comm.append_right _

theorem ElfSymbol.plan_mirrors (self other : ElfSymbol) :
    (self.plan options other).Mirrors (other.plan options self) where
  holdsChanges := rfl
  steps := by
    refine Mirrored.append ?_ (mirrored_symbolTypeSteps _ _ _)
    refine Mirrored.append ?_ (mirrored_optionalChange _ _ _)
    refine Mirrored.append ?_ (mirrored_change _ _ _)
    refine Mirrored.append ?_ (mirrored_change _ _ _)
    refine Mirrored.append ?_ (mirrored_change _ _ _)
    refine Mirrored.append ?_ (mirrored_change _ _ _)
    exact (mirrored_change _ _ _).append (mirrored_versionChange _ _)

theorem Integer.plan_mirrors (self other : Integer) :
    (self.plan other).Mirrors (other.plan self) where
  holdsChanges := rfl
  steps := by
    refine ((mirrored_change _ _ _).append (mirrored_change _ _ _)).append ?_
    by_cases partial_ : self.bitsize ≠ self.bytesize * 8 ∧ other.bitsize ≠ other.bytesize * 8
    · rw [if_pos partial_, if_pos partial_.symm]
      exact mirrored_change _ _ _
    · rw [if_neg partial_, if_neg (fun swapped => partial_ swapped.symm)]
      exact .of_eq rfl

theorem PointerReference.plan_mirrors (self other : PointerReference) :
    (self.plan other).Mirrors (other.plan self) := by
  unfold PointerReference.plan
  by_cases same : self.kind = other.kind
  · rw [if_neg (not_not.mpr same), if_neg (not_not.mpr same.symm)]
    exact ⟨rfl, .of_eq rfl⟩
  · rw [if_pos same, if_pos (Ne.symm same)]
    exact ⟨rfl, .of_eq rfl⟩

/-- Kinds without an examination have none in either direction. -/
theorem Node.plan_mirrors {self other : Node}
    (planned : self.plan graph options fuel other = .ok plan) :
    ∃ plan', other.plan graph options fuel self = .ok plan' ∧ plan.Mirrors plan' := by
  unfold Node.plan at planned
  split at planned
  case h_11 => exact StructUnion.plan_mirrors planned
  case h_12 => exact Enumeration.plan_mirrors planned
  case h_4 | h_5 | h_16 => cases planned
  all_goals cases planned
  · exact ⟨_, rfl, rfl, .of_eq rfl⟩
  · exact ⟨_, rfl, rfl, .of_eq rfl⟩
  · exact ⟨_, rfl, PointerReference.plan_mirrors _ _⟩
  · exact ⟨_, rfl, Integer.plan_mirrors _ _⟩
  · exact ⟨_, rfl, rfl, (mirrored_change _ _ _).append (.of_eq rfl)⟩
  · exact ⟨_, rfl, rfl, ((mirrored_change _ _ _).append (mirrored_change _ _ _)).append
      (.of_eq rfl)⟩
  · exact ⟨_, rfl, rfl, ((mirrored_change _ _ _).append (mirrored_change _ _ _)).append
      (.of_eq rfl)⟩
  · exact ⟨_, rfl, rfl,
      ((mirrored_change _ _ _).append (mirrored_optionalChange _ _ _)).append (.of_eq rfl)⟩
  · exact ⟨_, rfl, FunctionNode.plan_mirrors _ _⟩
  · exact ⟨_, rfl, ElfSymbol.plan_mirrors _ _⟩
  · exact ⟨_, rfl, Symbols.plan_mirrors _ _⟩

theorem qualifierSteps_mirrored (qualifiers1 qualifiers2 : Qualifiers) :
    Mirrored (qualifierSteps qualifiers1 qualifiers2) (qualifierSteps qualifiers2 qualifiers1) := by
  apply Mirrored.of_eq
  unfold qualifierSteps
  rw [Sweep.sweep_swap (fun q : Qualifier => q.ctorIdx) (fun q : Qualifier => q.ctorIdx)
    qualifiers1.inOrder qualifiers2.inOrder]
  simp only [List.filterMap_map, List.map_filterMap]
  apply List.filterMap_congr
  rintro ⟨_ | _, _ | _⟩ _ <;> rfl

/-- The examination of a pair in the other direction. -/
theorem Examined.mirrors {node1 node2 : Id} (examined : Examined graph options node1 node2 plan) :
    ∃ plan', Examined graph options node2 node1 plan' ∧ plan.Mirrors plan' := by
  cases examined with
  | qualified found1 found2 some_ =>
    exact ⟨_, .qualified found2 found1 some_.symm, rfl,
      (qualifierSteps_mirrored _ _).append (.of_eq rfl)⟩
  | typedefs found1 found2 walked1 walked2 moved =>
    refine ⟨_, .typedefs found2 found1 walked2 walked1 moved.symm, ?_, .of_eq rfl⟩
    apply decide_eq_decide.mpr
    constructor
    · exact fun ⟨some2, some1, same⟩ => ⟨some1, some2, same.symm⟩
    · exact fun ⟨some1, some2, same⟩ => ⟨some2, some1, same.symm⟩
  | kinds found1 found2 walked1 walked2 got1 got2 differ =>
    exact ⟨_, .kinds found2 found1 walked2 walked1 got2 got1 differ.symm, rfl, .of_eq rfl⟩
  | nodes found1 found2 walked1 walked2 got1 got2 same planned =>
    obtain ⟨fuel, planned⟩ := planned
    obtain ⟨plan', planned', mirrors⟩ := Node.plan_mirrors planned
    exact ⟨plan', .nodes found2 found1 walked2 walked1 got2 got1 same.symm
      ⟨fuel, planned'⟩, mirrors⟩

theorem Plans.mirrors {c : Comparison} (plans : Plans graph options c plan) :
    ∃ plan', Plans graph options c.swap plan' ∧ plan.Mirrors plan' := by
  obtain ⟨node1, node2, _, _, rfl⟩ := plans.set
  obtain ⟨plan', examined, mirrors⟩ := (plans_iff.mp plans).mirrors
  exact ⟨plan', plans_iff.mpr examined, mirrors⟩

section Picks

variable {β : Type} {steps steps' : List Step} {plan' : Plan}

/-- What does not depend on texts can be read off the mirrored steps. -/
theorem Mirrored.filterMap (mirrored : Mirrored steps steps') {f : Step → Option β}
    (bare : ∀ step : Step, f step.bare = f step) :
    (steps'.filterMap f).Perm (steps.filterMap fun step => f step.mirror) := by
  have picked := List.Perm.filterMap f mirrored
  rw [List.filterMap_map, List.filterMap_map] at picked
  rwa [show f ∘ Step.bare = f from funext bare] at picked

theorem Mirrored.countP (mirrored : Mirrored steps steps') {f : Step → Bool}
    (bare : ∀ step : Step, f step.bare = f step)
    (mirror : ∀ step : Step, f step.mirror = f step) :
    steps'.countP f = steps.countP f := by
  have counted := List.Perm.countP_eq f mirrored
  rw [List.countP_map, List.countP_map] at counted
  rwa [show f ∘ Step.bare = f from funext bare,
    show f ∘ Step.mirror = f from funext mirror] at counted

/-- What the verdict depends on can be read off in either direction. -/
theorem Plan.Mirrors.clean (mirrors : plan.Mirrors plan') : plan'.clean = plan.clean := by
  have counted := mirrors.steps.countP (f := fun step => !step.clean)
    (by rintro (_ | _ | _ | _ | _) <;> rfl) (by rintro (_ | _ | _ | _ | _) <;> rfl)
  have zero : ∀ plan : Plan, plan.clean = true ↔
      plan.steps.countP (fun step => !step.clean) = 0 := by
    intro plan
    simp [Plan.clean, List.countP_eq_zero]
  apply Bool.eq_iff_iff.mpr
  rw [zero, zero, counted]

theorem Plan.Mirrors.hasChanges (mirrors : plan.Mirrors plan') :
    plan'.steps.any Step.isChange = plan.steps.any Step.isChange := by
  have counted := mirrors.steps.countP (f := Step.isChange)
    (by rintro (_ | _ | _ | _ | _) <;> rfl) (by rintro (_ | _ | _ | _ | _) <;> rfl)
  apply Bool.eq_iff_iff.mpr
  rw [List.any_eq_true, List.any_eq_true, ← List.countP_pos_iff, ← List.countP_pos_iff, counted]

/-- Child comparisons are swapped. -/
theorem Plan.Mirrors.mem_children (mirrors : plan.Mirrors plan') {c : Comparison} :
    c.swap ∈ plan'.children ↔ c ∈ plan.children := by
  have picked := mirrors.steps.filterMap (f := Step.child)
    (by rintro (_ | _ | _ | _ | _) <;> rfl)
  have swapped : ∀ step : Step, step.mirror.child = step.child.map Prod.swap := by
    rintro (_ | _ | _ | _ | _) <;> rfl
  simp only [swapped, ← List.map_filterMap] at picked
  rw [Plan.children, picked.mem_iff]
  exact List.mem_map_of_injective Prod.swap_injective

theorem Plan.Mirrors.mem_sided (mirrors : plan.Mirrors plan') {c : Comparison} :
    (∃ step ∈ plan'.steps, step.sided = some c.swap) ↔
      ∃ step ∈ plan.steps, step.sided = some c := by
  have picked := mirrors.steps.filterMap (f := Step.sided)
    (by rintro (_ | _ | _ | _ | _) <;> rfl)
  have swapped : ∀ step : Step, step.mirror.sided = step.sided.map Prod.swap := by
    rintro (_ | _ | _ | _ | _) <;> rfl
  simp only [swapped, ← List.map_filterMap] at picked
  rw [← List.mem_filterMap, ← List.mem_filterMap, picked.mem_iff]
  exact List.mem_map_of_injective Prod.swap_injective

end Picks

/-- The differences of a comparison and of its mirror image. -/
structure Diff.Mirrors (diff diff' : Diff) : Prop where
  holdsChanges : diff'.holdsChanges = diff.holdsChanges
  hasChanges : diff'.hasChanges = diff.hasChanges
  notes : diff'.details.countP (·.edge.isNone) = diff.details.countP (·.edge.isNone)
  edges : diff'.edges.Perm (diff.edges.map Prod.swap)

theorem diff_notes (plan : Plan) (kept : Comparison → Bool) :
    (plan.diff kept).details.countP (·.edge.isNone) =
      plan.steps.countP fun step => step matches .note _ := by
  simp only [Plan.diff, diffOf, List.countP_filterMap]
  apply List.countP_congr
  intro step _
  cases step with
  | compare text node1 node2 => simp only [Step.detail]; split <;> simp
  | _ => simp [Step.detail]

theorem Plan.Mirrors.diff {plan' : Plan} (mirrors : plan.Mirrors plan')
    {kept kept' : Comparison → Bool}
    (same : ∀ c ∈ plan.children, kept' c.swap = kept c) :
    (plan.diff kept).Mirrors (plan'.diff kept') where
  holdsChanges := mirrors.holdsChanges
  hasChanges := mirrors.hasChanges
  notes := by
    rw [diff_notes, diff_notes]
    exact mirrors.steps.countP (by rintro (_ | _ | _ | _ | _) <;> rfl)
      (by rintro (_ | _ | _ | _ | _) <;> rfl)
  edges := by
    have picked := mirrors.steps.filterMap (f := fun step => (step.detail kept').bind (·.edge))
      (by
        rintro (_ | _ | _ | _ | ⟨_, node1, node2⟩)
        case compare => simp only [Step.bare, Step.detail]; split <;> rfl
        all_goals rfl)
    simp only [Diff.edges, Plan.diff, diffOf, List.filterMap_filterMap]
    refine picked.trans (.of_eq ?_)
    rw [List.map_filterMap]
    apply List.filterMap_congr
    intro step present
    cases step with
    | compare text node1 node2 =>
      have agrees := same (some node1, some node2) (List.mem_filterMap.mpr ⟨_, present, rfl⟩)
      simp only [Prod.swap_prod_mk] at agrees
      simp only [Step.mirror, Step.detail, agrees]
      split <;> rfl
    | _ => rfl

variable {c d : Comparison} {node1 node2 : Id} {answer : Answer} {s : State}

theorem ChildEdge.mirror (edge : ChildEdge graph options c d) :
    ChildEdge graph options c.swap d.swap := by
  obtain ⟨plan, plans, present⟩ := childEdge_iff.mp edge
  obtain ⟨plan', plans', mirrors⟩ := plans.mirrors
  exact childEdge_iff.mpr ⟨plan', plans', mirrors.mem_children.mpr present⟩

theorem Accepted.mirror {ok : Bool → Prop} (accepted : Accepted graph options ok c) :
    Accepted graph options ok c.swap := by
  have step : ∀ d, Accepted graph options ok d.swap → ∃ plan, Plans graph options d plan ∧
      ok plan.clean ∧ ∀ child ∈ plan.children, Accepted graph options ok child.swap := by
    intro d accepted
    obtain ⟨plan, plans, isOk, children⟩ := accepted.step
    obtain ⟨plan', plans', mirrors⟩ := plans.mirrors
    rw [Prod.swap_swap] at plans'
    refine ⟨plan', plans', mirrors.clean ▸ isOk, fun child present => ?_⟩
    apply children
    rwa [← mirrors.mem_children, Prod.swap_swap]
  exact Accepted.coinduct step (by rwa [Prod.swap_swap])

theorem Alike.mirror (alike : Alike graph options c) : Alike graph options c.swap := by
  have step : ∀ p q q', p.swap = q → ChildEdge graph options q q' →
      ∃ p', ChildEdge graph options p p' ∧ p'.swap = q' := by
    rintro p _ q' rfl edge
    exact ⟨q'.swap, by simpa using edge.mirror, Prod.swap_swap q'⟩
  apply Reach.Safe.simulate (R := fun p q : Comparison => p.swap = q) _ step rfl alike
  rintro p _ rfl differs
  obtain ⟨plan, plans, dirty⟩ := localDifference_iff.mp differs
  obtain ⟨plan', plans', mirrors⟩ := plans.mirrors
  rw [Prod.swap_swap] at plans'
  exact plans'.localDifference.mpr (mirrors.clean ▸ dirty)

section Runs

variable {fuel' : Nat} {answer' : Answer} {s' : State}

/-- What one run has found equal, the other finds equal. -/
theorem known_mirrored (ran : runCompare graph options fuel {} node1 node2 = .ok (answer, s))
    (ran' : runCompare graph options fuel' {} node2 node1 = .ok (answer', s')) {verdict : Bool}
    (known : s.known.lookup c = some verdict) : s'.known.lookup c.swap = some verdict := by
  have path : ReflTransGen (ChildEdge graph options) (some node1, some node2) c :=
    (known_iff_reachable ran).mp (by simp [known])
  have mirrored : ReflTransGen (ChildEdge graph options) (some node2, some node1) c.swap :=
    path.lift Prod.swap fun _ _ edge => edge.mirror
  obtain ⟨verdict', known'⟩ :=
    Option.ne_none_iff_exists'.mp ((known_iff_reachable ran').mpr mirrored)
  have inv := (runCompare_fresh ran).1
  have inv' := (runCompare_fresh ran').1
  have same : verdict' = true ↔ verdict = true := by
    rw [inv.verdict_iff known, inv'.verdict_iff known']
    exact ⟨fun alike => by simpa using alike.mirror, fun alike => alike.mirror⟩
  rw [known', Bool.eq_iff_iff.mpr same]

theorem outcomes_mirrored (ran : runCompare graph options fuel {} node1 node2 = .ok (answer, s))
    (ran' : runCompare graph options fuel' {} node2 node1 = .ok (answer', s'))
    (present : s.outcomes.lookup c ≠ none) : s'.outcomes.lookup c.swap ≠ none := by
  obtain ⟨inv, idle, _⟩ := runCompare_fresh ran
  obtain ⟨inv', idle', _⟩ := runCompare_fresh ran'
  rw [inv'.outcomes_keys idle']
  rcases (inv.outcomes_keys idle).mp present with unequal | ⟨d, plan, known, plans, sided⟩
  · exact .inl (known_mirrored ran ran' unequal)
  · obtain ⟨verdict, known⟩ := Option.ne_none_iff_exists'.mp known
    obtain ⟨plan', plans', mirrors⟩ := plans.mirrors
    refine .inr ⟨d.swap, plan', ?_, plans', mirrors.mem_sided.mpr sided⟩
    rw [known_mirrored ran ran' known]
    exact Option.some_ne_none _

/-- The entries of both runs are about the same pairs, and record as much. -/
theorem diff_mirrored (ran : runCompare graph options fuel {} node1 node2 = .ok (answer, s))
    (ran' : runCompare graph options fuel' {} node2 node1 = .ok (answer', s')) {diff diff' : Diff}
    (held : s.outcomes.lookup c = some diff) (held' : s'.outcomes.lookup c.swap = some diff') :
    diff.Mirrors diff' := by
  obtain ⟨inv, idle, _⟩ := runCompare_fresh ran
  obtain ⟨inv', idle', _⟩ := runCompare_fresh ran'
  have present : s.outcomes.lookup c ≠ none := by simp [held]
  rcases (inv.outcomes_keys idle).mp present with unequal | ⟨d, plan, known, plans, sided⟩
  · obtain ⟨plan, plans⟩ := inv.has_plan (c := c) (by simp [unequal])
    obtain ⟨plan', plans', mirrors⟩ := plans.mirrors
    rw [inv.recorded c plan unequal plans] at held
    rw [inv'.recorded c.swap plan' (known_mirrored ran ran' unequal) plans'] at held'
    cases held
    cases held'
    refine mirrors.diff fun child present => ?_
    have path := inv.walk.closedEdge c child (by simp [State.config, Scc.config, unequal])
      (plans.childEdge.mpr present)
    obtain ⟨verdict, settled⟩ := Option.ne_none_iff_exists'.mp path
    simp only [State.kept, settled, known_mirrored ran ran' settled]
  · -- an added or removed node has an empty entry on both sides
    obtain ⟨verdict, known⟩ := Option.ne_none_iff_exists'.mp known
    obtain ⟨plan', plans', mirrors⟩ := plans.mirrors
    obtain ⟨step, present, isSided⟩ := sided
    obtain ⟨step', present', isSided'⟩ := mirrors.mem_sided.mpr ⟨step, present, isSided⟩
    have known' := known_mirrored ran ran' known
    rw [inv.sided d plan (by simp [known]) plans step present c isSided] at held
    rw [inv'.sided d.swap plan' (by simp [known']) plans' step' present' c.swap isSided'] at held'
    cases held
    cases held'
    exact ⟨rfl, rfl, rfl, .refl _⟩

end Runs

/-- Comparing in the other direction returns, finds the same, and leaves the mirror
image of every difference. -/
theorem compare_mirrored (ran : runCompare graph options fuel {} node1 node2 = .ok (answer, s)) :
    (∃ enough, ∀ fuel', enough ≤ fuel' → ∃ answer' s',
      runCompare graph options fuel' {} node2 node1 = .ok (answer', s')) ∧
    ∀ fuel' answer' s', runCompare graph options fuel' {} node2 node1 = .ok (answer', s') →
      answer'.1 = answer.1 ∧
      (∀ c, s.outcomes.lookup c ≠ none ↔ s'.outcomes.lookup c.swap ≠ none) ∧
      ∀ c diff diff', s.outcomes.lookup c = some diff → s'.outcomes.lookup c.swap = some diff' →
        diff.Mirrors diff' := by
  have explorable : Explorable graph options (some node2, some node1) :=
    Accepted.mirror (explorable_of_returns ran)
  refine ⟨explorable.returns, fun fuel' answer' s' ran' => ⟨?_, fun c => ⟨?_, ?_⟩, ?_⟩⟩
  · obtain ⟨_, _, verdict, known, rfl⟩ := runCompare_fresh ran
    obtain ⟨_, _, verdict', known', rfl⟩ := runCompare_fresh ran'
    have same := (known_mirrored ran ran' known).symm.trans known'
    exact (Option.some.inj same).symm
  · exact outcomes_mirrored ran ran'
  · intro present
    have back := outcomes_mirrored ran' ran present
    rwa [Prod.swap_swap] at back
  · exact fun c diff diff' => diff_mirrored ran ran'

/-- Two versions of a struct, of which the first has a member more. -/
def shrunkStruct : Graph where
  nodes := [
    some (.integer ⟨"int", .signedInteger, 32, 4⟩),
    some (.member ⟨"first", ⟨0⟩, 0, 0⟩),
    some (.member ⟨"second", ⟨0⟩, 32, 0⟩),
    some (.structUnion ⟨.struct, "pair", some ⟨8, [], [], [⟨1⟩, ⟨2⟩]⟩⟩),
    some (.structUnion ⟨.struct, "pair", some ⟨8, [], [], [⟨1⟩]⟩⟩)]

theorem compare_mirrored_shrunk : ∃ answer s,
    runCompare shrunkStruct {} 5 {} ⟨3⟩ ⟨4⟩ = .ok (answer, s) ∧
    (∃ enough, ∀ fuel', enough ≤ fuel' → ∃ answer' s',
      runCompare shrunkStruct {} fuel' {} ⟨4⟩ ⟨3⟩ = .ok (answer', s')) ∧
    ∀ fuel' answer' s', runCompare shrunkStruct {} fuel' {} ⟨4⟩ ⟨3⟩ = .ok (answer', s') →
      answer'.1 = answer.1 ∧
      (∀ c, s.outcomes.lookup c ≠ none ↔ s'.outcomes.lookup c.swap ≠ none) ∧
      ∀ c diff diff', s.outcomes.lookup c = some diff → s'.outcomes.lookup c.swap = some diff' →
        diff.Mirrors diff' := by
  obtain ⟨answer, s, ran⟩ : ∃ answer s,
      runCompare shrunkStruct {} 5 {} ⟨3⟩ ⟨4⟩ = .ok (answer, s) := ⟨_, _, rfl⟩
  exact ⟨answer, s, ran, compare_mirrored ran⟩

end Stg
