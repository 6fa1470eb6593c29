import Stg.Examined
import Mathlib.Data.List.Forall2

set_option autoImplicit false

/- What it means for two nodes to be equal, given which comparisons of the nodes they
refer to are: the specification of the `Equals` methods. -/
namespace Stg

/-- The step is a comparison of related nodes. -/
def Step.Holds (S : Id → Id → Prop) : Step → Prop
  | .compare _ node1 node2 => S node1 node2
  | _ => False

/-- The steps find no difference and compare related nodes only. -/
def Hold (S : Id → Id → Prop) (steps : List Step) : Prop := ∀ step ∈ steps, step.Holds S

/-- The nodes with the keys they are matched by, in the order of keys. -/
def Keyed (graph : Graph) (nodes : List Id) (entries : List (String × Id)) : Prop :=
  ∃ fuel keys, matchingKeys graph fuel nodes = .ok keys ∧ entries = keys.map (entry nodes ⟨0⟩)

def NodesMatch (graph : Graph) (S : Id → Id → Prop) (nodes1 nodes2 : List Id) : Prop :=
  ∃ entries1 entries2, Keyed graph nodes1 entries1 ∧ Keyed graph nodes2 entries2 ∧
    List.Forall₂ (fun entry1 entry2 => entry1.1 = entry2.1 ∧ S entry1.2 entry2.2) entries1 entries2

/-- The enumerators under their names, in the order of names. -/
def Enumeration.Definition.named (definition : Enumeration.Definition) :
    List (String × (String × Int64)) :=
  definition.getEnumNames.map (entry definition.enumerators ("", 0))

/-- The whole of the storage is used. -/
def Integer.Full (self : Integer) : Prop := self.bitsize = self.bytesize * 8

section

variable (graph : Graph) (options : CompareOptions) (S : Id → Id → Prop)

def StructUnion.Definition.Matches (self other : StructUnion.Definition) : Prop :=
  self.bytesize = other.bytesize ∧ NodesMatch graph S self.baseClasses other.baseClasses ∧
    NodesMatch graph S self.methods other.methods ∧ NodesMatch graph S self.members other.members

def Enumeration.Definition.Matches (self other : Enumeration.Definition) : Prop :=
  self.bytesize = other.bytesize ∧
    List.Forall₂ (fun enum1 enum2 => enum1.1 = enum2.1 ∧ enum1.2.2 = enum2.2.2) self.named other.named

/-- Optional definitions: both are there and match, or their status is the same or ignored. -/
def DefinitionsMatch {α : Type} (M : α → α → Prop) : Option α → Option α → Prop
  | some definition1, some definition2 => M definition1 definition2
  | definition1, definition2 => options.ignoreTypeDeclarationStatusChanges = true ∨
    definition1.isSome = definition2.isSome

def SymbolTypesMatch : Option Id → Option Id → Prop
  | some type1, some type2 => S type1 type2
  | type1, type2 => options.ignoreSymbolTypePresenceChanges = true ∨ type1.isSome = type2.isSome

inductive Node.Matches : Node → Node → Prop where
  | void : Node.Matches .void .void
  | variadic : Node.Matches .variadic .variadic
  | pointerReference {self other : PointerReference} : self.kind = other.kind →
    S self.pointeeTypeId other.pointeeTypeId →
    Node.Matches (.pointerReference self) (.pointerReference other)
  | integer {self other : Integer} : self.encoding = other.encoding →
    self.bitsize = other.bitsize → (¬ self.Full → ¬ other.Full → self.bytesize = other.bytesize) →
    Node.Matches (.integer self) (.integer other)
  | array {self other : ArrayNode} : self.numberOfElements = other.numberOfElements →
    S self.elementTypeId other.elementTypeId → Node.Matches (.array self) (.array other)
  | baseClass {self other : BaseClass} : self.inheritance = other.inheritance →
    self.offset = other.offset → S self.typeId other.typeId →
    Node.Matches (.baseClass self) (.baseClass other)
  | member {self other : Member} : self.offset = other.offset → self.bitsize = other.bitsize →
    S self.typeId other.typeId → Node.Matches (.member self) (.member other)
  | method {self other : Method} : self.kind = other.kind →
    self.vtableOffset = other.vtableOffset → S self.typeId other.typeId →
    Node.Matches (.method self) (.method other)
  | structUnion {self other : StructUnion} : self.kind = other.kind → self.name = other.name →
    DefinitionsMatch options (StructUnion.Definition.Matches graph S) self.definition
      other.definition → Node.Matches (.structUnion self) (.structUnion other)
  | enumeration {self other : Enumeration} : self.name = other.name →
    DefinitionsMatch options Enumeration.Definition.Matches self.definition other.definition →
    Node.Matches (.enumeration self) (.enumeration other)
  | function {self other : FunctionNode} : S self.returnTypeId other.returnTypeId →
    List.Forall₂ (fun p1 p2 => S p1.typeId p2.typeId) self.parameters other.parameters →
    Node.Matches (.function self) (.function other)
  | elfSymbol {self other : ElfSymbol} : self.symbolName = other.symbolName →
    self.versionInfo = other.versionInfo → self.isDefined = other.isDefined →
    self.symbolType = other.symbolType → self.binding = other.binding →
    self.visibility = other.visibility → self.crc = other.crc →
    SymbolTypesMatch options S self.typeId other.typeId →
    Node.Matches (.elfSymbol self) (.elfSymbol other)
  | symbols {self other : Symbols} :
    List.Forall₂ (fun symbol1 symbol2 => symbol1.1 = symbol2.1 ∧ S symbol1.2 symbol2.2)
      self.symbols other.symbols → Node.Matches (.symbols self) (.symbols other)

end

variable {graph : Graph} {options : CompareOptions} {S : Id → Id → Prop} {plan : Plan} {fuel : Nat}

section Steps

variable {α β κ : Type} [LinearOrder κ] {steps more : List Step}

@[simp] theorem hold_nil : Hold S [] ↔ True := by simp [Hold]

@[simp] theorem hold_cons (step : Step) : Hold S (step :: steps) ↔ step.Holds S ∧ Hold S steps := by
  simp [Hold]

@[simp] theorem hold_append : Hold S (steps ++ more) ↔ Hold S steps ∧ Hold S more := by
  simp [Hold, or_imp, forall_and]

theorem hold_perm (perm : steps.Perm more) : Hold S steps ↔ Hold S more := by
  simp only [Hold, perm.mem_iff]

@[simp] theorem hold_change [DecidableEq α] [Print α] (text : String) (before after : α) :
    Hold S (change text before after) ↔ before = after := by
  unfold change
  by_cases same : before = after <;> simp [same, Step.Holds]

@[simp] theorem hold_optionalChange [DecidableEq α] [Print α] (text : String)
    (before after : Option α) : Hold S (optionalChange text before after) ↔ before = after := by
  cases before <;> cases after <;> simp [optionalChange, Step.Holds]

@[simp] theorem hold_versionChange (version1 version2 : Option ElfSymbol.VersionInfo) :
    Hold S (versionChange version1 version2) ↔ version1 = version2 := by
  rcases version1 with _ | ⟨default1, name1⟩ <;> rcases version2 with _ | ⟨default2, name2⟩ <;>
    simp [versionChange, and_comm]

@[simp] theorem hold_statusChange (defined1 defined2 ignoreDiff : Bool) :
    Hold S (statusChange defined1 defined2 ignoreDiff) ↔
      ignoreDiff = true ∨ defined1 = defined2 := by
  cases defined1 <;> cases defined2 <;> cases ignoreDiff <;> simp [statusChange, Step.Holds]

@[simp] theorem hold_symbolTypeSteps (type1 type2 : Option Id) :
    Hold S (symbolTypeSteps options.ignoreSymbolTypePresenceChanges type1 type2) ↔
      SymbolTypesMatch options S type1 type2 := by
  cases type1 <;> cases type2 <;>
    cases held : options.ignoreSymbolTypePresenceChanges <;>
    simp [symbolTypeSteps, SymbolTypesMatch, Step.Holds, held]

/-- Steps along a sweep hold exactly when the lists correspond position by position. -/
theorem hold_sweep (key1 : α → κ) (key2 : β → κ) (f : Option α × Option β → List Step)
    (P : α → β → Prop) (left : ∀ x, ¬ Hold S (f (some x, none)))
    (right : ∀ y, ¬ Hold S (f (none, some y)))
    (both : ∀ x y, key1 x = key2 y → (Hold S (f (some x, some y)) ↔ P x y)) (xs : List α)
    (ys : List β) :
    Hold S ((Sweep.sweep key1 key2 xs ys).flatMap f) ↔
      List.Forall₂ (fun x y => key1 x = key2 y ∧ P x y) xs ys := by
  induction xs, ys using Sweep.sweep_induction key1 key2 with
  | nil ys => cases ys <;> simp [right]
  | rest x xs ih => simp [left]
  | less x xs y ys before ih => simp [Sweep.sweep_less before, left, ne_of_lt before]
  | greater x xs y ys after ih => simp [Sweep.sweep_greater after, right, (ne_of_lt after).symm]
  | equal x xs y ys same ih => simp [Sweep.sweep_equal same, both x y same, same, ih]

theorem hold_sweptSteps (entries1 entries2 : List (String × Id)) :
    Hold S ((Sweep.sweep (·.1) (·.1) entries1 entries2).map sweptStep) ↔
      List.Forall₂ (fun entry1 entry2 => entry1.1 = entry2.1 ∧ S entry1.2 entry2.2)
        entries1 entries2 := by
  rw [List.map_eq_flatMap (f := sweptStep)]
  apply hold_sweep <;> simp [sweptStep, Step.Holds]

theorem hold_sweptEnumerators (enums1 enums2 : List (String × (String × Int64))) :
    Hold S ((Sweep.sweep (·.1) (·.1) enums1 enums2).flatMap sweptEnumerator) ↔
      List.Forall₂ (fun enum1 enum2 => enum1.1 = enum2.1 ∧ enum1.2.2 = enum2.2.2)
        enums1 enums2 := by
  apply hold_sweep <;> simp [sweptEnumerator, Step.Holds]

theorem mem_inOrder {qualifiers : Qualifiers} {q : Qualifier} :
    q ∈ qualifiers.inOrder ↔ q ∈ qualifiers := by
  cases q <;> simp [Qualifiers.inOrder]

@[simp] theorem hold_qualifierSteps (qualifiers1 qualifiers2 : Qualifiers) :
    Hold S (qualifierSteps qualifiers1 qualifiers2) ↔ qualifiers1 = qualifiers2 := by
  have injective : ∀ q q' : Qualifier, q.ctorIdx = q'.ctorIdx → q = q' := by
    intro q q' same
    cases q <;> cases q' <;> first | rfl | cases same
  have swept := hold_sweep (S := S) (fun q : Qualifier => q.ctorIdx)
    (fun q : Qualifier => q.ctorIdx) (fun item => (qualifierStep item).toList) (fun _ _ => True)
    (by simp [qualifierStep, Step.Holds]) (by simp [qualifierStep, Step.Holds])
    (by simp [qualifierStep]) qualifiers1.inOrder qualifiers2.inOrder
  unfold qualifierSteps
  rw [List.filterMap_eq_flatMap_toList, swept]
  constructor
  · intro related
    have same : qualifiers1.inOrder = qualifiers2.inOrder := by
      rw [← List.forall₂_eq_eq_eq]
      exact related.imp fun q q' equal => injective q q' equal.1
    ext q
    rw [← mem_inOrder, same, mem_inOrder]
  · rintro rfl
    exact List.forall₂_same.mpr fun q _ => ⟨rfl, trivial⟩

/-- The three groups of symbols hold when the whole sweep does. -/
theorem hold_symbolGroups {γ : Type} {removedStep : γ → Step} {addedStep : γ → Step}
    {bothStep : γ × γ → Step} {f : Option γ × Option γ → List Step}
    (removes : ∀ x, f (some x, none) = [removedStep x])
    (adds : ∀ y, f (none, some y) = [addedStep y])
    (both : ∀ x y, f (some x, some y) = [bothStep (x, y)]) (nothing : f (none, none) = [])
    (swept : List (Option γ × Option γ)) :
    Hold S ((swept.filterMap removedSymbol).map removedStep ++
        (swept.filterMap addedSymbol).map addedStep ++
        (swept.filterMap symbolsInBoth).map bothStep) ↔ Hold S (swept.flatMap f) := by
  induction swept with
  | nil => simp
  | cons item swept ih =>
    simp only [hold_append] at ih
    rcases item with ⟨_ | x, _ | y⟩ <;>
      simp [List.filterMap_cons, removedSymbol, addedSymbol, symbolsInBoth, removes, adds, both,
        nothing, ← ih]
    all_goals tauto

end Steps

section Lists

variable {nodes nodes1 nodes2 : List Id} {entries entries' : List (String × Id)}

theorem Keyed.unique (keyed : Keyed graph nodes entries) (keyed' : Keyed graph nodes entries') :
    entries = entries' := by
  obtain ⟨fuel, keys, found, rfl⟩ := keyed
  obtain ⟨fuel', keys', found', rfl⟩ := keyed'
  have same := agree_of_yields (fun _ _ enough => matchingKeys_yields enough nodes) found found'
  rw [same]

theorem nodesMatch_of_steps {reordered : Bool} {steps : List Step}
    (planned : nodeSteps graph fuel nodes1 nodes2 reordered = .ok steps) :
    Hold S steps ↔ NodesMatch graph S nodes1 nodes2 := by
  obtain ⟨keys1, found1, rest⟩ := bind_eq_ok planned
  obtain ⟨keys2, found2, _⟩ := bind_eq_ok rest
  obtain ⟨_, planned', perm⟩ := nodeSteps_perm found1 found2 reordered
  cases planned.symm.trans planned'
  rw [hold_perm perm, hold_sweptSteps]
  constructor
  · exact fun related => ⟨_, _, ⟨fuel, keys1, found1, rfl⟩, ⟨fuel, keys2, found2, rfl⟩, related⟩
  · rintro ⟨entries1, entries2, keyed1, keyed2, related⟩
    rw [keyed1.unique ⟨fuel, keys1, found1, rfl⟩, keyed2.unique ⟨fuel, keys2, found2, rfl⟩]
      at related
    exact related

theorem NodesMatch.planned (matched : NodesMatch graph S nodes1 nodes2) (reordered : Bool) :
    ∃ fuel steps, nodeSteps graph fuel nodes1 nodes2 reordered = .ok steps ∧ Hold S steps := by
  have ⟨entries1, entries2, ⟨fuel1, keys1, found1, _⟩, ⟨fuel2, keys2, found2, _⟩, _⟩ := matched
  have more1 := matchingKeys_yields (Nat.le_add_right fuel1 fuel2) nodes1 keys1 found1
  have more2 := matchingKeys_yields (Nat.le_add_left fuel2 fuel1) nodes2 keys2 found2
  obtain ⟨steps, planned, _⟩ := nodeSteps_perm more1 more2 reordered
  exact ⟨_, steps, planned, (nodesMatch_of_steps planned).mpr matched⟩

end Lists

theorem StructUnion.matches_of_plan {self other : StructUnion}
    (planned : self.plan graph options fuel other = .ok plan) :
    Hold S plan.steps ↔ (Node.structUnion self).Matches graph options S (.structUnion other) := by
  unfold StructUnion.plan at planned
  split at planned
  · rename_i differ
    cases planned
    refine iff_of_false (by simp [Step.Holds]) ?_
    rintro ⟨⟩
    rename_i kind name _
    exact differ.elim (absurd kind) (absurd name)
  rename_i same
  obtain ⟨kind, name⟩ : self.kind = other.kind ∧ self.name = other.name := by
    simpa [not_or] using same
  have structs : (Node.structUnion self).Matches graph options S (.structUnion other) ↔
      DefinitionsMatch options (StructUnion.Definition.Matches graph S) self.definition
        other.definition := by
    constructor
    · rintro ⟨⟩
      assumption
    · exact .structUnion kind name
  rw [structs]
  split at planned
  · rename_i definition1 definition2 defined1 defined2
    obtain ⟨baseClasses, planned1, rest1⟩ := bind_eq_ok planned
    obtain ⟨methods, planned2, rest2⟩ := bind_eq_ok rest1
    obtain ⟨members, planned3, rest3⟩ := bind_eq_ok rest2
    cases rest3
    simp only [hold_append, hold_change, nodesMatch_of_steps planned1, nodesMatch_of_steps planned2,
      nodesMatch_of_steps planned3, defined1, defined2, DefinitionsMatch,
      StructUnion.Definition.Matches, and_assoc]
  · rename_i declared
    cases planned
    rw [hold_statusChange]
    unfold DefinitionsMatch
    split
    · rename_i definition1 definition2 defined1 defined2
      exact absurd defined2 (declared _ _ defined1)
    · rfl

theorem Enumeration.matches_of_plan {self other : Enumeration}
    (planned : self.plan options other = .ok plan) :
    Hold S plan.steps ↔ (Node.enumeration self).Matches graph options S (.enumeration other) := by
  unfold Enumeration.plan at planned
  split at planned
  · rename_i differ
    cases planned
    refine iff_of_false (by simp [Step.Holds]) ?_
    rintro ⟨⟩
    rename_i name _
    exact differ name
  rename_i same
  have name : self.name = other.name := not_not.mp same
  have enums : (Node.enumeration self).Matches graph options S (.enumeration other) ↔
      DefinitionsMatch options Enumeration.Definition.Matches self.definition other.definition := by
    constructor
    · rintro ⟨⟩
      assumption
    · exact .enumeration name
  rw [enums]
  split at planned
  · rename_i definition1 definition2 defined1 defined2
    obtain ⟨pairs, reordered, rest1⟩ := bind_eq_ok planned
    obtain ⟨enumerators, planned1, rest2⟩ := bind_eq_ok rest1
    cases rest2
    obtain ⟨_, _, reordered', planned', perm⟩ := enumeratorSteps_perm definition1 definition2
    cases reordered.symm.trans reordered'
    cases planned1.symm.trans planned'
    rw [hold_append, hold_change, hold_perm perm.flatten, ← List.flatMap_def, hold_sweptEnumerators,
      defined1, defined2]
    rfl
  · rename_i declared
    cases planned
    rw [hold_statusChange]
    unfold DefinitionsMatch
    split
    · rename_i definition1 definition2 defined1 defined2
      exact absurd defined2 (declared _ _ defined1)
    · rfl

theorem hold_unmatchedSteps (parameters1 parameters2 : List Parameter) :
    Hold S (unmatchedSteps parameters1 parameters2) ↔ parameters1.length = parameters2.length := by
  have none_left : ∀ {parameters : List Parameter} {min : Nat} {f : Parameter × Nat → Step},
      (∀ item, ¬ (f item).Holds S) →
      (Hold S (((parameters.drop min).zipIdx min).map f) ↔ parameters.length ≤ min) := by
    intro parameters min f sided
    rw [← List.drop_eq_nil_iff]
    cases parameters.drop min with
    | nil => simp
    | cons parameter rest => simp [sided]
  unfold unmatchedSteps
  dsimp only
  split
  · rw [none_left (by simp [Step.Holds])]
    omega
  · rw [none_left (by simp [Step.Holds])]
    omega

theorem FunctionNode.hold_plan (self other : FunctionNode) :
    Hold S (self.plan other).steps ↔ S self.returnTypeId other.returnTypeId ∧
      List.Forall₂ (fun p1 p2 => S p1.typeId p2.typeId) self.parameters other.parameters := by
  have zipped : ∀ (pairs : List (Parameter × Parameter)) (start : Nat),
      Hold S ((pairs.zipIdx start).map fun item =>
        .compare (parameterText item.2 item.1.1.name item.1.2.name)
          item.1.1.typeId item.1.2.typeId) ↔
      ∀ pair ∈ pairs, S pair.1.typeId pair.2.typeId := by
    intro pairs
    induction pairs with
    | nil => simp
    | cons pair pairs ih => simp [Step.Holds, ih]
  unfold FunctionNode.plan
  rw [List.forall₂_iff_zip, List.cons_append, hold_cons, hold_append, zipped, hold_unmatchedSteps]
  simp only [Step.Holds, Prod.forall]
  tauto

theorem Symbols.hold_plan (self other : Symbols) :
    Hold S (self.plan other).steps ↔
      List.Forall₂ (fun symbol1 symbol2 => symbol1.1 = symbol2.1 ∧ S symbol1.2 symbol2.2)
        self.symbols other.symbols := by
  let f : Option (SymbolKey × Id) × Option (SymbolKey × Id) → List Step
    | (some symbol1, none) => [.removed (quotePath symbol1.1.path) symbol1.2]
    | (none, some symbol2) => [.added (quotePath symbol2.1.path) symbol2.2]
    | (some symbol1, some symbol2) => [.compare (quotePath symbol1.1.path) symbol1.2 symbol2.2]
    | (none, none) => []
  have swept := hold_sweep (S := S) (fun symbol : SymbolKey × Id => symbol.1)
    (fun symbol : SymbolKey × Id => symbol.1) f (fun symbol1 symbol2 => S symbol1.2 symbol2.2)
    (by simp [f, Step.Holds]) (by simp [f, Step.Holds]) (by simp [f, Step.Holds]) self.symbols
    other.symbols
  rw [← swept]
  exact hold_symbolGroups (fun _ => rfl) (fun _ => rfl) (fun _ _ => rfl) rfl _

/-- The plan of two nodes holds exactly when the nodes match. -/
theorem Node.matches_of_plan {self other : Node}
    (planned : self.plan graph options fuel other = .ok plan) :
    Hold S plan.steps ↔ self.Matches graph options S other := by
  unfold Node.plan at planned
  split at planned
  case h_11 => exact StructUnion.matches_of_plan planned
  case h_12 => exact Enumeration.matches_of_plan planned
  case h_4 | h_5 | h_16 => cases planned
  all_goals cases planned
  · exact iff_of_true (by simp) .void
  · exact iff_of_true (by simp) .variadic
  · rename_i self other
    unfold PointerReference.plan
    split
    · rename_i differ
      refine iff_of_false (by simp [Step.Holds]) fun matched => ?_
      cases matched with
      | pointerReference kind child => exact differ kind
    · rename_i same
      have kind : self.kind = other.kind := not_not.mp same
      simp only [hold_cons, hold_nil, Step.Holds, and_true]
      refine ⟨.pointerReference kind, fun matched => ?_⟩
      cases matched with
      | pointerReference _ child => exact child
  · rename_i self other
    have bytesize : Hold S (if self.bitsize ≠ self.bytesize * 8 ∧ other.bitsize ≠ other.bytesize * 8
        then change "byte size" self.bytesize other.bytesize else []) ↔
        (¬ self.Full → ¬ other.Full → self.bytesize = other.bytesize) := by
      unfold Integer.Full
      split
      · rename_i both
        simp [both.1, both.2]
      · rename_i either
        simp only [hold_nil, true_iff]
        exact fun self_ other_ => absurd ⟨self_, other_⟩ either
    unfold Integer.plan
    rw [hold_append, hold_append, hold_change, hold_change, bytesize]
    constructor
    · rintro ⟨⟨encoding, bitsize⟩, storage⟩
      exact .integer encoding bitsize storage
    · intro matched
      cases matched with
      | integer encoding bitsize storage => exact ⟨⟨encoding, bitsize⟩, storage⟩
  · simp only [ArrayNode.plan, hold_append, hold_change, hold_cons, hold_nil, Step.Holds, and_true]
    constructor
    · rintro ⟨size, child⟩
      exact .array size child
    · intro matched
      cases matched with
      | array size child => exact ⟨size, child⟩
  · simp only [BaseClass.plan, hold_append, hold_change, hold_cons, hold_nil, Step.Holds, and_true]
    constructor
    · rintro ⟨⟨inheritance, offset⟩, child⟩
      exact .baseClass inheritance offset child
    · intro matched
      cases matched with
      | baseClass inheritance offset child => exact ⟨⟨inheritance, offset⟩, child⟩
  · simp only [Member.plan, hold_append, hold_change, hold_cons, hold_nil, Step.Holds, and_true]
    constructor
    · rintro ⟨⟨offset, bitsize⟩, child⟩
      exact .member offset bitsize child
    · intro matched
      cases matched with
      | member offset bitsize child => exact ⟨⟨offset, bitsize⟩, child⟩
  · simp only [Method.plan, hold_append, hold_change, hold_optionalChange, hold_cons, hold_nil,
      Step.Holds, and_true]
    constructor
    · rintro ⟨⟨kind, vtableOffset⟩, child⟩
      exact .method kind vtableOffset child
    · intro matched
      cases matched with
      | method kind vtableOffset child => exact ⟨⟨kind, vtableOffset⟩, child⟩
  · rw [FunctionNode.hold_plan]
    constructor
    · rintro ⟨returned, parameters⟩
      exact .function returned parameters
    · intro matched
      cases matched with
      | function returned parameters => exact ⟨returned, parameters⟩
  · simp only [ElfSymbol.plan, hold_append, hold_change, hold_versionChange, hold_optionalChange,
      hold_symbolTypeSteps, and_assoc]
    constructor
    · rintro ⟨name, version, defined, type, binding, visibility, crc, child⟩
      exact .elfSymbol name version defined type binding visibility crc child
    · intro matched
      cases matched with
      | elfSymbol name version defined type binding visibility crc child =>
        exact ⟨name, version, defined, type, binding, visibility, crc, child⟩
  · rw [Symbols.hold_plan]
    refine ⟨.symbols, fun matched => ?_⟩
    cases matched with
    | symbols related => exact related

/-- Nodes that match have a plan. -/
theorem Node.Matches.planned {self other : Node}
    (matched : self.Matches graph options S other) :
    ∃ plan, self.Plans graph options other plan ∧ Hold S plan.steps := by
  suffices found : ∃ fuel plan, self.plan graph options fuel other = .ok plan by
    obtain ⟨fuel, plan, found⟩ := found
    exact ⟨plan, ⟨fuel, found⟩, (Node.matches_of_plan found).mpr matched⟩
  cases matched with
  | @structUnion self other kind name definitions =>
    have same : ¬ (self.kind ≠ other.kind ∨ self.name ≠ other.name) := by simp [kind, name]
    simp only [Node.plan, StructUnion.plan, if_neg same]
    cases defined1 : self.definition with
    | none => exact ⟨0, _, rfl⟩
    | some definition1 =>
      cases defined2 : other.definition with
      | none => exact ⟨0, _, rfl⟩
      | some definition2 =>
        rw [defined1, defined2] at definitions
        obtain ⟨_, baseClasses, methods, members⟩ := definitions
        obtain ⟨fuel1, steps1, planned1, _⟩ := baseClasses.planned true
        obtain ⟨fuel2, steps2, planned2, _⟩ := methods.planned false
        obtain ⟨fuel3, steps3, planned3, _⟩ := members.planned true
        have more1 : fuel1 ≤ fuel1 + fuel2 + fuel3 := by omega
        have more2 : fuel2 ≤ fuel1 + fuel2 + fuel3 := by omega
        have more3 : fuel3 ≤ fuel1 + fuel2 + fuel3 := by omega
        refine ⟨fuel1 + fuel2 + fuel3, ?_⟩
        simp only [nodeSteps_yields more1 _ _ _ _ planned1, nodeSteps_yields more2 _ _ _ _ planned2,
          nodeSteps_yields more3 _ _ _ _ planned3, bind, Except.bind]
        exact ⟨_, rfl⟩
  | @enumeration self other name definitions =>
    simp only [Node.plan, Enumeration.plan, if_neg (not_not.mpr name)]
    cases self.definition with
    | none => exact ⟨0, _, rfl⟩
    | some definition1 =>
      cases other.definition with
      | none => exact ⟨0, _, rfl⟩
      | some definition2 =>
        obtain ⟨pairs, steps, reordered, planned, _⟩ := enumeratorSteps_perm definition1 definition2
        refine ⟨0, ?_⟩
        simp only [reordered, planned, bind, Except.bind]
        exact ⟨_, rfl⟩
  | _ => exact ⟨0, _, rfl⟩

end Stg
