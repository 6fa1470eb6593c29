import Stg.Plan

set_option autoImplicit false

/- The `Equals` methods and the examination refine their plans: whenever there is
a plan the code runs exactly its steps, in any monad, and without a plan the code
fails. -/
namespace Stg

section Runs

variable {m : Type → Type} [Monad m] [LawfulMonad m] (h : Handlers m)

/-- Methods whose plan is a fixed list of steps run it statement by statement. -/
theorem PointerReference.equals_eq (self other : PointerReference) :
    self.equals h other = (self.plan other).run h := by
  unfold PointerReference.equals PointerReference.plan Plan.run
  split <;> simp [Step.run]

theorem Integer.equals_eq (self other : Integer) :
    (self.equals other : m Result) = (self.plan other).run h := by
  unfold Integer.equals Integer.plan Plan.run
  split <;> simp

theorem ArrayNode.equals_eq (self other : ArrayNode) :
    self.equals h other = (self.plan other).run h := by
  simp [ArrayNode.equals, ArrayNode.plan, Plan.run, Step.run]

theorem BaseClass.equals_eq (self other : BaseClass) :
    self.equals h other = (self.plan other).run h := by
  simp [BaseClass.equals, BaseClass.plan, Plan.run, Step.run]

theorem Member.equals_eq (self other : Member) :
    self.equals h other = (self.plan other).run h := by
  simp [Member.equals, Member.plan, Plan.run, Step.run]

theorem Method.equals_eq (self other : Method) :
    self.equals h other = (self.plan other).run h := by
  simp [Method.equals, Method.plan, Plan.run, Step.run]

/-- Two loops after a request: the shared parameters, then those of the longer list. -/
theorem FunctionNode.equals_eq (self other : FunctionNode) :
    self.equals h other = (self.plan other).run h := by
  unfold FunctionNode.equals FunctionNode.plan Plan.run
  simp only [List.cons_append, runSteps_cons, Step.run, bind_assoc, pure_bind, runSteps_append]
  refine bind_congr fun answer => ?_
  refine foldlM_bind_eq_runSteps h ?_ fun result => ?_
  · exact fun _ _ => rfl
  unfold unmatchedSteps
  by_cases added : self.parameters.length < other.parameters.length
  · simp only [added, decide_true, ↓reduceIte]
    apply foldlM_eq_runSteps
    exact fun _ _ => rfl
  · simp only [added, decide_false, Bool.false_eq_true, ↓reduceIte]
    apply foldlM_eq_runSteps
    exact fun _ _ => rfl

theorem ElfSymbol.equals_eq (options : CompareOptions) (self other : ElfSymbol) :
    self.equals h options other = (self.plan options other).run h := by
  unfold ElfSymbol.equals ElfSymbol.plan Plan.run
  simp only [runSteps_append, runSteps_change, runSteps_optionalChange, runSteps_versionChange,
    pure_bind]
  unfold symbolTypeSteps
  cases self.typeId <;> cases other.typeId <;>
    cases options.ignoreSymbolTypePresenceChanges <;> simp [Step.run]

/-- Each of the three loops runs the steps made from its list. -/
theorem Symbols.equals_eq (self other : Symbols) :
    self.equals h other = (self.plan other).run h := by
  unfold Symbols.equals Symbols.plan Plan.run
  simp only [runSteps_append, bind_assoc]
  refine foldlM_bind_eq_runSteps h ?_ fun result => ?_
  · exact fun _ _ => rfl
  refine foldlM_bind_eq_runSteps h ?_ fun result => ?_
  · exact fun _ _ => rfl
  apply foldlM_eq_runSteps
  exact fun _ _ => rfl

/-- A loop over planned elements runs the steps planned for them. -/
theorem foldlM_eq_runSteps_of_mapM {α β : Type} {body : Result → α → m Result}
    {plan : α → Except Error β} (steps : β → List Step)
    (same : ∀ result item planned, plan item = .ok planned →
      body result item = runSteps h (steps planned) result) {items : List α}
    {planned : List β} (plans : items.mapM plan = .ok planned) (result : Result) :
    items.foldlM body result = runSteps h (planned.flatMap steps) result := by
  induction items generalizing planned result with
  | nil => cases plans; rfl
  | cons item items ih =>
    rw [List.mapM_cons] at plans
    obtain ⟨first, plannedFirst, plans⟩ := bind_eq_ok plans
    obtain ⟨rest, plannedRest, plans⟩ := bind_eq_ok plans
    cases plans
    rw [List.foldlM_cons, List.flatMap_cons, runSteps_append, same _ _ _ plannedFirst]
    exact bind_congr fun result => ih plannedRest result

/-- Both sweep the qualifiers, the one for the steps and the other for the result. -/
theorem compareQualifiers_eq (qualifiers1 qualifiers2 : Qualifiers) (result : Result) :
    runSteps h (qualifierSteps qualifiers1 qualifiers2) result =
      pure (compareQualifiers qualifiers1 qualifiers2 result) := by
  unfold qualifierSteps compareQualifiers
  generalize Sweep.sweep (fun q : Qualifier => q.ctorIdx) (fun q : Qualifier => q.ctorIdx)
    qualifiers1.inOrder qualifiers2.inOrder = pairs
  induction pairs generalizing result with
  | nil => rfl
  | cons pair pairs ih =>
    rcases pair with ⟨_ | _, _ | _⟩ <;>
      simp [List.filterMap_cons, qualifierStep, Step.run, ih]

/-- With at most one definition the comparison stops there and records the status. -/
theorem compareDefined_eq {defined1 defined2 : Bool} (declared : (defined1 && defined2) = false)
    (result : Result) (ignoreDiff : Bool) :
    ∃ recorded, compareDefined defined1 defined2 result ignoreDiff = (false, recorded) ∧
      runSteps h (statusChange defined1 defined2 ignoreDiff) result = pure recorded := by
  unfold compareDefined statusChange
  rw [declared]
  simp only [Bool.false_eq_true, ↓reduceIte]
  split <;> exact ⟨_, rfl, by simp [Step.run]⟩

end Runs

theorem deref_ok {α : Type} {o : Option α} {value : α}
    (held : (deref o : Except Error α) = .ok value) : o = some value := by
  cases o with
  | none => cases held
  | some held' => cases held; rfl

section Fallible

variable {m : Type → Type} [Monad m] [MonadExceptOf Error m] [LawfulMonad m] (h : Handlers m)

/-- The indexes of a pair that was planned are inside the lists. -/
theorem compareNodesPair_eq {nodes1 nodes2 : List Id} {pair : Option Nat × Option Nat}
    {step : Step} (planned : nodeStep nodes1 nodes2 pair = .ok step) (result : Result) :
    compareNodesPair h nodes1 nodes2 result pair = step.run h result := by
  unfold nodeStep at planned
  unfold compareNodesPair
  split at planned
  all_goals
    dsimp only [bind, Except.bind] at planned
    split at planned
    · cases planned
    rename_i node1 held1
    have held1 := deref_ok held1
  · cases planned
    simp [held1, deref, Step.run]
  · cases planned
    simp [held1, deref, Step.run]
  · split at planned
    · cases planned
    rename_i node2 held2
    have held2 := deref_ok held2
    cases planned
    simp [held1, held2, deref, Step.run]

/-- The keys and the pairs are those of the plan, and the loop is over its steps. -/
theorem compareNodes_eq {graph : Graph} {fuel : Nat} {nodes1 nodes2 : List Id} {reordered : Bool}
    {steps : List Step} (planned : nodeSteps graph fuel nodes1 nodes2 reordered = .ok steps)
    (result : Result) :
    compareNodes h graph fuel result nodes1 nodes2 reordered = runSteps h steps result := by
  unfold nodeSteps at planned
  obtain ⟨keys1, found1, planned⟩ := bind_eq_ok planned
  obtain ⟨keys2, found2, planned⟩ := bind_eq_ok planned
  obtain ⟨pairs, paired, planned⟩ := bind_eq_ok planned
  unfold compareNodes
  rw [found1, found2]
  simp only [ofExcept, pure_bind, paired]
  rw [foldlM_eq_runSteps_of_mapM h (fun step => [step])
    (fun result _ _ plannedHere => ?_) planned, List.flatMap_singleton']
  rw [compareNodesPair_eq h plannedHere, runSteps_cons]
  exact (bind_pure _).symm

theorem compareEnumeratorsPair_eq {enums1 enums2 : List (String × Int64)}
    {pair : Option Nat × Option Nat} {steps : List Step}
    (planned : enumeratorSteps enums1 enums2 pair = .ok steps) (result : Result) :
    compareEnumeratorsPair enums1 enums2 result pair = runSteps h steps result := by
  unfold enumeratorSteps at planned
  unfold compareEnumeratorsPair
  split at planned
  all_goals
    obtain ⟨enum1, held1, planned⟩ := bind_eq_ok planned
    have held1 := deref_ok held1
  · cases planned
    simp [held1, deref, Step.run]
  · cases planned
    simp [held1, deref, Step.run]
  · obtain ⟨enum2, held2, planned⟩ := bind_eq_ok planned
    have held2 := deref_ok held2
    cases planned
    simp [held1, held2, deref]

theorem not_both_isSome {α : Type} {left right : Option α}
    (declared : ∀ x y, left = some x → right = some y → False) :
    (left.isSome && right.isSome) = false := by
  cases left with
  | none => rfl
  | some x =>
    cases right with
    | none => rfl
    | some y => exact (declared x y rfl rfl).elim

/-- The plan of two definitions is put together from those of the three lists of children. -/
theorem StructUnion.equals_eq {graph : Graph} {options : CompareOptions} {fuel : Nat}
    {self other : StructUnion} {plan : Plan}
    (planned : self.plan graph options fuel other = .ok plan) :
    self.equals h graph options fuel other = plan.run h := by
  unfold StructUnion.plan at planned
  unfold StructUnion.equals
  split at planned
  · rename_i different
    cases planned
    simp [different, Plan.run, Step.run]
  rename_i same
  rw [if_neg same]
  split at planned
  · rename_i definition1 definition2 defined1 defined2
    obtain ⟨baseClasses, plannedBases, planned⟩ := bind_eq_ok planned
    obtain ⟨methods, plannedMethods, planned⟩ := bind_eq_ok planned
    obtain ⟨members, plannedMembers, planned⟩ := bind_eq_ok planned
    cases planned
    simp only [defined1, defined2, Option.isSome_some, compareDefined, Bool.and_self, ↓reduceIte,
      deref, pure_bind, compareNodes_eq h plannedBases, compareNodes_eq h plannedMethods,
      compareNodes_eq h plannedMembers, Plan.run, runSteps_append, runSteps_change, bind_assoc]
  · rename_i declared
    cases planned
    obtain ⟨recorded, compared, recording⟩ := compareDefined_eq h (not_both_isSome declared)
      { diff := { holdsChanges := self.name ≠ "" } } options.ignoreTypeDeclarationStatusChanges
    simp only [compared]
    exact recording.symm

theorem Enumeration.equals_eq {options : CompareOptions} {self other : Enumeration} {plan : Plan}
    (planned : self.plan options other = .ok plan) :
    (self.equals options other : m Result) = plan.run h := by
  unfold Enumeration.plan at planned
  unfold Enumeration.equals
  split at planned
  · rename_i different
    cases planned
    simp [different, Plan.run, Step.run]
  rename_i same
  rw [if_neg same]
  split at planned
  · rename_i definition1 definition2 defined1 defined2
    obtain ⟨pairs, reordered, planned⟩ := bind_eq_ok planned
    obtain ⟨enumerators, plannedEnumerators, planned⟩ := bind_eq_ok planned
    cases planned
    simp only [defined1, defined2, Option.isSome_some, compareDefined, Bool.and_self, ↓reduceIte,
      deref, pure_bind, reordered, ofExcept, Plan.run, runSteps_append, runSteps_change]
    rw [foldlM_eq_runSteps_of_mapM h id
      (fun _ _ _ plannedHere => compareEnumeratorsPair_eq h plannedHere _) plannedEnumerators,
      List.flatMap_id]
  · rename_i declared
    cases planned
    obtain ⟨recorded, compared, recording⟩ := compareDefined_eq h (not_both_isSome declared)
      { diff := { holdsChanges := self.name ≠ "" } } options.ignoreTypeDeclarationStatusChanges
    simp only [compared]
    exact recording.symm

/-- Kinds that have no `Equals` of their own have no plan either. -/
theorem Node.equals_eq {graph : Graph} {options : CompareOptions} {fuel : Nat} {self other : Node}
    {plan : Plan} (planned : self.plan graph options fuel other = .ok plan) :
    self.equals h graph options fuel other = plan.run h := by
  unfold Node.plan at planned
  unfold Node.equals
  split at planned
  case h_4 | h_5 | h_16 => cases planned
  case h_11 => exact StructUnion.equals_eq h planned
  case h_12 => exact Enumeration.equals_eq h planned
  all_goals cases planned
  · rfl
  · rfl
  · exact PointerReference.equals_eq h _ _
  · exact Integer.equals_eq h _ _
  · exact ArrayNode.equals_eq h _ _
  · exact BaseClass.equals_eq h _ _
  · exact Member.equals_eq h _ _
  · exact Method.equals_eq h _ _
  · exact FunctionNode.equals_eq h _ _
  · exact ElfSymbol.equals_eq h _ _ _
  · exact Symbols.equals_eq h _ _

/-- Where an examination has a plan, it runs the steps of the plan. -/
theorem examine_eq {graph : Graph} {options : CompareOptions} {fuel : Nat} {node1 node2 : Id}
    {plan : Plan} (planned : planOf graph options fuel node1 node2 = .ok plan) :
    examine h graph options fuel node1 node2 = plan.run h := by
  unfold planOf at planned
  obtain ⟨⟨unqualified1, qualifiers1⟩, found1, planned⟩ := bind_eq_ok planned
  obtain ⟨⟨unqualified2, qualifiers2⟩, found2, planned⟩ := bind_eq_ok planned
  unfold examine
  rw [found1, found2]
  simp only [ofExcept_ok, pure_bind] at planned ⊢
  split at planned
  · rename_i qualified
    cases planned
    rw [if_pos qualified]
    simp [Plan.run, compareQualifiers_eq, Step.run]
  rename_i unqualified
  rw [if_neg unqualified]
  obtain ⟨⟨resolved1, typedefs1⟩, found1, planned⟩ := bind_eq_ok planned
  obtain ⟨⟨resolved2, typedefs2⟩, found2, planned⟩ := bind_eq_ok planned
  rw [found1, found2]
  simp only [ofExcept_ok, pure_bind] at planned ⊢
  split at planned
  · rename_i named
    cases planned
    rw [if_pos named]
    simp [Plan.run, Step.run]
  rename_i unnamed
  rw [if_neg unnamed]
  obtain ⟨type1, found1, planned⟩ := bind_eq_ok planned
  obtain ⟨type2, found2, planned⟩ := bind_eq_ok planned
  rw [found1, found2]
  simp only [ofExcept_ok, pure_bind]
  split at planned
  · rename_i different
    cases planned
    rw [if_pos different]
    simp [Plan.run, Step.run]
  rename_i same
  rw [if_neg same]
  exact Node.equals_eq h planned

end Fallible

section Stateful

variable {σ : Type}

/-- The call returns from some state. -/
def Returns {α : Type} (call : StateT σ (Except Error) α) : Prop :=
  ∃ s out, call.run s = .ok out

/-- What returns as a whole returns in both its parts. -/
theorem Returns.bind {α β : Type} {first : StateT σ (Except Error) α}
    {rest : α → StateT σ (Except Error) β} (returns : Returns (first >>= rest)) :
    Returns first ∧ ∃ a, Returns (rest a) := by
  obtain ⟨s, out, ran⟩ := returns
  rw [StateT.run_bind] at ran
  obtain ⟨⟨a, s'⟩, ranFirst, ran⟩ := bind_eq_ok ran
  exact ⟨⟨s, _, ranFirst⟩, a, s', out, ran⟩

/-- A result that the code went on with was one. -/
theorem Returns.ofExcept_bind {α β : Type} {value : Except Error α}
    {rest : α → StateT σ (Except Error) β} (returns : Returns (ofExcept value >>= rest)) :
    ∃ a, value = .ok a ∧ Returns (rest a) := by
  cases value with
  | error reason =>
    obtain ⟨s, out, ran⟩ := returns
    cases ran
  | ok a =>
    rw [ofExcept_ok, pure_bind] at returns
    exact ⟨a, rfl, returns⟩

theorem Returns.deref_bind {α β : Type} {value : Option α}
    {rest : α → StateT σ (Except Error) β} (returns : Returns (deref value >>= rest)) :
    ∃ a, value = some a ∧ Returns (rest a) := by
  cases value with
  | none =>
    obtain ⟨s, out, ran⟩ := returns
    cases ran
  | some a =>
    rw [deref, pure_bind] at returns
    exact ⟨a, rfl, returns⟩

/-- A loop that returns planned each of its elements. -/
theorem mapM_of_returns {α β : Type} {body : Result → α → StateT σ (Except Error) Result}
    {plan : α → Except Error β} {items : List α} {result : Result}
    (returns : Returns (items.foldlM body result))
    (planned : ∀ result item, Returns (body result item) → ∃ b, plan item = .ok b) :
    ∃ bs, items.mapM plan = .ok bs := by
  induction items generalizing result with
  | nil => exact ⟨[], rfl⟩
  | cons item items ih =>
    rw [List.foldlM_cons] at returns
    obtain ⟨first, result, rest⟩ := returns.bind
    obtain ⟨b, plannedFirst⟩ := planned _ _ first
    obtain ⟨bs, plannedRest⟩ := ih rest
    exact ⟨b :: bs, by rw [List.mapM_cons, plannedFirst, plannedRest]; rfl⟩

variable {h : Handlers (StateT σ (Except Error))}

/-- The other direction: nothing returns without a plan. -/
theorem nodeStep_of_returns {nodes1 nodes2 : List Id} {result : Result}
    {pair : Option Nat × Option Nat}
    (returns : Returns (compareNodesPair h nodes1 nodes2 result pair)) :
    ∃ step, nodeStep nodes1 nodes2 pair = .ok step := by
  rcases pair with ⟨_ | index1, _ | index2⟩
  · obtain ⟨_, held, _⟩ := Returns.deref_bind returns
    cases held
  · obtain ⟨node2, held2, _⟩ := Returns.deref_bind returns
    exact ⟨_, by rw [nodeStep, held2]; rfl⟩
  · obtain ⟨node1, held1, _⟩ := Returns.deref_bind returns
    exact ⟨_, by rw [nodeStep, held1]; rfl⟩
  · obtain ⟨node1, held1, returns⟩ := Returns.deref_bind returns
    obtain ⟨node2, held2, _⟩ := Returns.deref_bind returns
    exact ⟨_, by simp only [nodeStep, held1, held2]; rfl⟩

theorem nodeSteps_of_returns {graph : Graph} {fuel : Nat} {nodes1 nodes2 : List Id}
    {reordered : Bool} {result : Result}
    (returns : Returns (compareNodes h graph fuel result nodes1 nodes2 reordered)) :
    ∃ steps, nodeSteps graph fuel nodes1 nodes2 reordered = .ok steps := by
  unfold compareNodes at returns
  obtain ⟨keys1, found1, returns⟩ := returns.ofExcept_bind
  obtain ⟨keys2, found2, returns⟩ := returns.ofExcept_bind
  obtain ⟨pairs, arranged, returns⟩ := returns.ofExcept_bind
  obtain ⟨steps, planned⟩ := mapM_of_returns returns fun _ _ => nodeStep_of_returns
  refine ⟨steps, ?_⟩
  simp only [nodeSteps, found1, found2, bind, Except.bind, arranged]
  exact planned

theorem enumeratorSteps_of_returns {enums1 enums2 : List (String × Int64)} {result : Result}
    {pair : Option Nat × Option Nat}
    (returns : Returns (compareEnumeratorsPair enums1 enums2 result pair :
      StateT σ (Except Error) Result)) :
    ∃ steps, enumeratorSteps enums1 enums2 pair = .ok steps := by
  rcases pair with ⟨_ | index1, _ | index2⟩
  · obtain ⟨_, held, _⟩ := Returns.deref_bind returns
    cases held
  · obtain ⟨enum2, held2, _⟩ := Returns.deref_bind returns
    exact ⟨_, by rw [enumeratorSteps, held2]; rfl⟩
  · obtain ⟨enum1, held1, _⟩ := Returns.deref_bind returns
    exact ⟨_, by rw [enumeratorSteps, held1]; rfl⟩
  · obtain ⟨enum1, held1, returns⟩ := Returns.deref_bind returns
    obtain ⟨enum2, held2, _⟩ := Returns.deref_bind returns
    exact ⟨_, by simp only [enumeratorSteps, held1, held2]; rfl⟩

/-- The three loops over children returned, so each has its steps. -/
theorem StructUnion.plan_of_returns {graph : Graph} {options : CompareOptions} {fuel : Nat}
    {self other : StructUnion} (returns : Returns (self.equals h graph options fuel other)) :
    ∃ plan, self.plan graph options fuel other = .ok plan := by
  unfold StructUnion.equals at returns
  unfold StructUnion.plan
  split
  · exact ⟨_, rfl⟩
  rename_i same
  rw [if_neg same] at returns
  split
  · rename_i definition1 definition2 defined1 defined2
    simp only [defined1, defined2, Option.isSome_some, compareDefined, Bool.and_self, ↓reduceIte,
      deref, pure_bind] at returns
    obtain ⟨comparedBases, _, returns⟩ := returns.bind
    obtain ⟨comparedMethods, _, comparedMembers⟩ := returns.bind
    obtain ⟨baseClasses, plannedBases⟩ := nodeSteps_of_returns comparedBases
    obtain ⟨methods, plannedMethods⟩ := nodeSteps_of_returns comparedMethods
    obtain ⟨members, plannedMembers⟩ := nodeSteps_of_returns comparedMembers
    exact ⟨_, by rw [plannedBases, plannedMethods, plannedMembers]; rfl⟩
  · exact ⟨_, rfl⟩

theorem Enumeration.plan_of_returns {options : CompareOptions} {self other : Enumeration}
    (returns : Returns (self.equals options other : StateT σ (Except Error) Result)) :
    ∃ plan, self.plan options other = .ok plan := by
  unfold Enumeration.equals at returns
  unfold Enumeration.plan
  split
  · exact ⟨_, rfl⟩
  rename_i same
  rw [if_neg same] at returns
  split
  · rename_i definition1 definition2 defined1 defined2
    simp only [defined1, defined2, Option.isSome_some, compareDefined, Bool.and_self, ↓reduceIte,
      deref, pure_bind] at returns
    obtain ⟨pairs, reordered, returns⟩ := returns.ofExcept_bind
    obtain ⟨enumerators, planned⟩ := mapM_of_returns returns fun _ _ => enumeratorSteps_of_returns
    exact ⟨_, by rw [reordered]; simp only [bind, Except.bind, planned]; rfl⟩
  · exact ⟨_, rfl⟩

theorem not_returns_throw {α : Type} {reason : Error} :
    ¬Returns (throw reason : StateT σ (Except Error) α) := by
  rintro ⟨s, out, ran⟩
  cases ran

theorem Node.plan_of_returns {graph : Graph} {options : CompareOptions} {fuel : Nat}
    {self other : Node} (returns : Returns (self.equals h graph options fuel other)) :
    ∃ plan, self.plan graph options fuel other = .ok plan := by
  unfold Node.equals at returns
  unfold Node.plan
  split at returns
  case h_4 | h_5 | h_16 => exact absurd returns not_returns_throw
  case h_11 => exact StructUnion.plan_of_returns returns
  case h_12 => exact Enumeration.plan_of_returns returns
  all_goals exact ⟨_, rfl⟩

/-- An examination that returns has a plan. -/
theorem plan_of_returns {graph : Graph} {options : CompareOptions} {fuel : Nat} {node1 node2 : Id}
    (returns : Returns (examine h graph options fuel node1 node2)) :
    ∃ plan, planOf graph options fuel node1 node2 = .ok plan := by
  unfold examine at returns
  obtain ⟨⟨unqualified1, qualifiers1⟩, found1, returns⟩ := returns.ofExcept_bind
  obtain ⟨⟨unqualified2, qualifiers2⟩, found2, returns⟩ := returns.ofExcept_bind
  unfold planOf
  rw [found1, found2]
  simp only [bind, Except.bind] at returns ⊢
  split
  · exact ⟨_, rfl⟩
  rename_i unqualified
  rw [if_neg unqualified] at returns
  obtain ⟨⟨resolved1, typedefs1⟩, found1, returns⟩ := returns.ofExcept_bind
  obtain ⟨⟨resolved2, typedefs2⟩, found2, returns⟩ := returns.ofExcept_bind
  rw [found1, found2]
  simp only at returns ⊢
  split
  · exact ⟨_, rfl⟩
  rename_i unnamed
  rw [if_neg unnamed] at returns
  obtain ⟨type1, found1, returns⟩ := returns.ofExcept_bind
  obtain ⟨type2, found2, returns⟩ := returns.ofExcept_bind
  rw [found1, found2]
  simp only at returns ⊢
  split
  · exact ⟨_, rfl⟩
  rename_i same
  rw [if_neg same] at returns
  exact Node.plan_of_returns returns

end Stateful

end Stg
