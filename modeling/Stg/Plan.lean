import Stg.Compare

set_option autoImplicit false

/- What an examination does, as data. No `Equals` method lets the answer of one
comparison decide what it asks next, so the differences it records and the
comparisons it requests form a list that does not depend on the answers. -/
namespace Stg

/-- One thing that an examination does with its result: a difference of its own, or a
request to compare and what is to be recorded of the answer. -/
inductive Step where
  | note (text : String)
  | incomparable
  | removed (text : String) (node : Id)
  | added (text : String) (node : Id)
  | compare (text : String) (node1 node2 : Id)
  deriving DecidableEq, Repr

/-- All that an examination does, and whether the comparison holds its changes. -/
structure Plan where
  holdsChanges : Bool := false
  steps : List Step
  deriving DecidableEq, Repr

/-- `Result::MaybeAddNodeDiff` as steps. -/
def change {α : Type} [DecidableEq α] [Print α] (text : String) (before after : α) : List Step :=
  if before ≠ after then [.note (changeText text before after)] else []

def optionalChange {α : Type} [DecidableEq α] [Print α] (text : String) :
    Option α → Option α → List Step
  | some before, some after => change text before after
  | some before, none => [.note (text ++ print before ++ " was removed")]
  | none, some after => [.note (text ++ print after ++ " was added")]
  | none, none => []

/-- `CompareDefined` where at most one of the two is defined. -/
def statusChange (defined1 defined2 ignoreDiff : Bool) : List Step :=
  if !ignoreDiff && defined1 != defined2 then
    [.note ("was " ++ definedText defined1 ++ ", is now " ++ definedText defined2)]
  else []

/-- The plans of the `Equals` methods, in the order of their statements. -/
def PointerReference.plan (self other : PointerReference) : Plan :=
  if self.kind ≠ other.kind then { steps := [.incomparable] }
  else { steps := [.compare (if self.kind = .pointer then "pointed-to" else "referred-to")
    self.pointeeTypeId other.pointeeTypeId] }

def Integer.plan (self other : Integer) : Plan where
  steps := change "encoding" self.encoding other.encoding ++
    change "bit size" self.bitsize other.bitsize ++
    if self.bitsize ≠ self.bytesize * 8 ∧ other.bitsize ≠ other.bytesize * 8 then
      change "byte size" self.bytesize other.bytesize
    else []

def ArrayNode.plan (self other : ArrayNode) : Plan where
  steps := change "number of elements" self.numberOfElements other.numberOfElements ++
    [.compare "element" self.elementTypeId other.elementTypeId]

def BaseClass.plan (self other : BaseClass) : Plan where
  steps := change "inheritance" self.inheritance other.inheritance ++
    change "offset" self.offset other.offset ++ [.compare "" self.typeId other.typeId]

def Member.plan (self other : Member) : Plan where
  steps := change "offset" self.offset other.offset ++
    change "size" self.bitsize other.bitsize ++ [.compare "" self.typeId other.typeId]

def Method.plan (self other : Method) : Plan where
  steps := change "kind" self.kind other.kind ++
    optionalChange "vtable offset" self.vtableOffset other.vtableOffset ++
    [.compare "" self.typeId other.typeId]

/-- One pair of `CompareNodes`: a child that was removed, was added or is on both sides. -/
def nodeStep (nodes1 nodes2 : List Id) : Option Nat × Option Nat → Except Error Step
  | (some index1, none) => do
    let node1 ← deref nodes1[index1]?
    pure (.removed "" node1)
  | (none, some index2) => do
    let node2 ← deref nodes2[index2]?
    pure (.added "" node2)
  | (index1, index2) => do
    let node1 ← deref (index1.bind (nodes1[·]?))
    let node2 ← deref (index2.bind (nodes2[·]?))
    pure (.compare "" node1 node2)

/-- `CompareNodes` as steps; only its lookups of keys can fail. -/
def nodeSteps (graph : Graph) (fuel : Nat) (nodes1 nodes2 : List Id) (reordered : Bool) :
    Except Error (List Step) := do
  let keys1 ← matchingKeys graph fuel nodes1
  let keys2 ← matchingKeys graph fuel nodes2
  let pairs ← arrange reordered (pairUp keys1 keys2)
  pairs.mapM (nodeStep nodes1 nodes2)

/-- Another kind or name ends the examination before anything is requested. -/
def StructUnion.plan (graph : Graph) (options : CompareOptions) (fuel : Nat)
    (self other : StructUnion) : Except Error Plan :=
  if self.kind ≠ other.kind ∨ self.name ≠ other.name then pure { steps := [.incomparable] }
  else
    match self.definition, other.definition with
    | some definition1, some definition2 => do
      let baseClasses ← nodeSteps graph fuel definition1.baseClasses definition2.baseClasses true
      let methods ← nodeSteps graph fuel definition1.methods definition2.methods false
      let members ← nodeSteps graph fuel definition1.members definition2.members true
      pure ⟨self.name ≠ "", change "byte size" definition1.bytesize definition2.bytesize ++
        baseClasses ++ methods ++ members⟩
    | definition1, definition2 =>
      pure ⟨self.name ≠ "", statusChange definition1.isSome definition2.isSome
        options.ignoreTypeDeclarationStatusChanges⟩

/-- One pair of the loop over enumerators, which compares no nodes. -/
def enumeratorSteps (enums1 enums2 : List (String × Int64)) :
    Option Nat × Option Nat → Except Error (List Step)
  | (some index1, none) => do
    let enum1 ← deref enums1[index1]?
    pure [.note (enumeratorText enum1 "removed")]
  | (none, some index2) => do
    let enum2 ← deref enums2[index2]?
    pure [.note (enumeratorText enum2 "added")]
  | (index1, index2) => do
    let enum1 ← deref (index1.bind (enums1[·]?))
    let enum2 ← deref (index2.bind (enums2[·]?))
    pure (change ("enumerator " ++ quoted enum1.1 ++ " value") enum1.2 enum2.2)

def Enumeration.plan (options : CompareOptions) (self other : Enumeration) : Except Error Plan :=
  if self.name ≠ other.name then pure { steps := [.incomparable] }
  else
    match self.definition, other.definition with
    | some definition1, some definition2 => do
      let pairs ← reorder (pairUp definition1.getEnumNames definition2.getEnumNames)
      let enumerators ← pairs.mapM
        (enumeratorSteps definition1.enumerators definition2.enumerators)
      pure ⟨self.name ≠ "", change "byte size" definition1.bytesize definition2.bytesize ++
        enumerators.flatten⟩
    | definition1, definition2 =>
      pure ⟨self.name ≠ "", statusChange definition1.isSome definition2.isSome
        options.ignoreTypeDeclarationStatusChanges⟩

/-- The parameters beyond the shorter list, all on one side. -/
def unmatchedSteps (parameters1 parameters2 : List Parameter) : List Step :=
  let min := min parameters1.length parameters2.length
  if parameters1.length < parameters2.length then
    ((parameters2.drop min).zipIdx min).map fun item =>
      .added (unmatchedParameterText item.2 item.1.name) item.1.typeId
  else
    ((parameters1.drop min).zipIdx min).map fun item =>
      .removed (unmatchedParameterText item.2 item.1.name) item.1.typeId

def FunctionNode.plan (self other : FunctionNode) : Plan where
  steps := .compare "return" self.returnTypeId other.returnTypeId ::
    (self.parameters.zip other.parameters).zipIdx.map (fun item =>
      .compare (parameterText item.2 item.1.1.name item.1.2.name)
        item.1.1.typeId item.1.2.typeId) ++
    unmatchedSteps self.parameters other.parameters

def versionChange : Option ElfSymbol.VersionInfo → Option ElfSymbol.VersionInfo → List Step
  | some version1, some version2 => change "version" version1.name version2.name ++
    change "default version" version1.isDefault version2.isDefault
  | version1, version2 => change "has version" version1.isSome version2.isSome

/-- The presence of a symbol's type, unless it is to be ignored. -/
def symbolTypeSteps (ignoreDiff : Bool) : Option Id → Option Id → List Step
  | some type1, some type2 => [.compare "" type1 type2]
  | some type1, none => if ignoreDiff then [] else [.removed "" type1]
  | none, some type2 => if ignoreDiff then [] else [.added "" type2]
  | none, none => []

def ElfSymbol.plan (options : CompareOptions) (self other : ElfSymbol) : Plan where
  steps := change "name" self.symbolName other.symbolName ++
    versionChange self.versionInfo other.versionInfo ++
    change "defined" self.isDefined other.isDefined ++
    change "symbol type" self.symbolType other.symbolType ++
    change "binding" self.binding other.binding ++
    change "visibility" self.visibility other.visibility ++
    optionalChange "CRC" self.crc other.crc ++
    symbolTypeSteps options.ignoreSymbolTypePresenceChanges self.typeId other.typeId

/-- One sweep over both maps gives three lists: the removed, the added and the common symbols. -/
def Symbols.plan (self other : Symbols) : Plan where
  holdsChanges := true
  steps :=
    let swept := Sweep.sweep (·.1) (·.1) self.symbols other.symbols
    (swept.filterMap removedSymbol).map (fun symbol1 =>
      .removed (quotePath symbol1.1.path) symbol1.2) ++
    (swept.filterMap addedSymbol).map (fun symbol2 =>
      .added (quotePath symbol2.1.path) symbol2.2) ++
    (swept.filterMap symbolsInBoth).map fun pair =>
      .compare (quotePath pair.1.1.path) pair.1.2 pair.2.2

def Node.plan (graph : Graph) (options : CompareOptions) (fuel : Nat) :
    Node → Node → Except Error Plan
  | .void, .void => pure { steps := [] }
  | .variadic, .variadic => pure { steps := [] }
  | .pointerReference self, .pointerReference other => pure (self.plan other)
  | .typedef _, .typedef _ => die "internal error: Typedef::Equals"
  | .qualified _, .qualified _ => die "internal error: Qualified::Equals"
  | .integer self, .integer other => pure (self.plan other)
  | .array self, .array other => pure (self.plan other)
  | .baseClass self, .baseClass other => pure (self.plan other)
  | .member self, .member other => pure (self.plan other)
  | .method self, .method other => pure (self.plan other)
  | .structUnion self, .structUnion other => self.plan graph options fuel other
  | .enumeration self, .enumeration other => self.plan options other
  | .function self, .function other => pure (self.plan other)
  | .elfSymbol self, .elfSymbol other => pure (self.plan options other)
  | .symbols self, .symbols other => pure (self.plan other)
  | _, _ => die "std::bad_cast"

def qualifierStep : Option Qualifier × Option Qualifier → Option Step
  | (some qualifier, none) => some (.note (qualifiersMessage qualifier "removed"))
  | (none, some qualifier) => some (.note (qualifiersMessage qualifier "added"))
  | _ => none

def qualifierSteps (qualifiers1 qualifiers2 : Qualifiers) : List Step :=
  (Sweep.sweep (fun q : Qualifier => q.ctorIdx) (fun q : Qualifier => q.ctorIdx)
    qualifiers1.inOrder qualifiers2.inOrder).filterMap qualifierStep

/-- The whole examination: qualifiers come off first, then typedefs, then the nodes meet. -/
def planOf (graph : Graph) (options : CompareOptions) (fuel : Nat) (node1 node2 : Id) :
    Except Error Plan := do
  let (unqualified1, qualifiers1) ← resolveQualifiers graph fuel node1 ∅
  let (unqualified2, qualifiers2) ← resolveQualifiers graph fuel node2 ∅
  if qualifiers1 ≠ ∅ ∨ qualifiers2 ≠ ∅ then
    pure { steps := qualifierSteps qualifiers1 qualifiers2 ++
      [.compare "underlying" unqualified1 unqualified2] }
  else
    let (resolved1, typedefs1) ← resolveTypedefs graph fuel unqualified1 []
    let (resolved2, typedefs2) ← resolveTypedefs graph fuel unqualified2 []
    if unqualified1 ≠ resolved1 ∨ unqualified2 ≠ resolved2 then
      pure ⟨typedefs1 ≠ [] ∧ typedefs2 ≠ [] ∧ typedefs1.head? = typedefs2.head?,
        [.compare "resolved" resolved1 resolved2]⟩
    else
      let type1 ← graph.get unqualified1
      let type2 ← graph.get unqualified2
      if type1.kind ≠ type2.kind then pure { steps := [.incomparable] }
      else type1.plan graph options fuel type2

section Run

variable {m : Type → Type} [Monad m]

/-- What a step does when the requests are answered by the handlers. -/
def Step.run (h : Handlers m) (result : Result) : Step → m Result
  | .note text => pure (result.addNodeDiff text)
  | .incomparable => pure result.markIncomparable
  | .removed text node => do
    let comparison ← h.removed node
    pure (result.addEdgeDiff text comparison)
  | .added text node => do
    let comparison ← h.added node
    pure (result.addEdgeDiff text comparison)
  | .compare text node1 node2 => do
    let answer ← h.compare node1 node2
    pure (result.maybeAddEdgeDiff text answer)

def runSteps (h : Handlers m) (steps : List Step) (result : Result) : m Result :=
  steps.foldlM (Step.run h) result

def Plan.run (h : Handlers m) (plan : Plan) : m Result :=
  runSteps h plan.steps { diff := { holdsChanges := plan.holdsChanges } }

@[simp] theorem runSteps_nil (h : Handlers m) (result : Result) :
    runSteps h [] result = pure result := rfl

@[simp] theorem runSteps_cons (h : Handlers m) (step : Step) (steps : List Step)
    (result : Result) :
    runSteps h (step :: steps) result = step.run h result >>= runSteps h steps := rfl

/-- A loop whose body performs one step an element runs the list of those steps. -/
theorem foldlM_eq_runSteps {α : Type} {h : Handlers m} {body : Result → α → m Result}
    {step : α → Step} (same : ∀ result item, body result item = (step item).run h result)
    (items : List α) (result : Result) :
    items.foldlM body result = runSteps h (items.map step) result := by
  induction items generalizing result with
  | nil => rfl
  | cons item items ih =>
    rw [List.foldlM_cons, List.map_cons, runSteps_cons, same]
    exact bind_congr ih

/-- The same with the statements after the loop. -/
theorem foldlM_bind_eq_runSteps {α : Type} (h : Handlers m) {body : Result → α → m Result}
    {step : α → Step}
    (same : ∀ result item, body result item = (step item).run h result) {items : List α}
    {result : Result} {rest rest' : Result → m Result}
    (next : ∀ result, rest result = rest' result) :
    items.foldlM body result >>= rest = runSteps h (items.map step) result >>= rest' := by
  rw [foldlM_eq_runSteps same]
  exact bind_congr next

variable [LawfulMonad m]

@[simp] theorem runSteps_append (h : Handlers m) (first second : List Step) (result : Result) :
    runSteps h (first ++ second) result = runSteps h first result >>= runSteps h second :=
  List.foldlM_append

/-- Steps without requests do what the source's statement does, in one go. -/
@[simp] theorem runSteps_change {α : Type} [DecidableEq α] [Print α] (h : Handlers m)
    (text : String) (before after : α) (result : Result) :
    runSteps h (change text before after) result =
      pure (result.maybeAddNodeDiff text before after) := by
  unfold change Result.maybeAddNodeDiff
  split <;> simp [Step.run]

@[simp] theorem runSteps_optionalChange {α : Type} [DecidableEq α] [Print α] (h : Handlers m)
    (text : String) (before after : Option α) (result : Result) :
    runSteps h (optionalChange text before after) result =
      pure (result.maybeAddOptionalNodeDiff text before after) := by
  cases before <;> cases after <;> simp [optionalChange, Result.maybeAddOptionalNodeDiff, Step.run]

@[simp] theorem runSteps_versionChange (h : Handlers m) (result : Result)
    (version1 version2 : Option ElfSymbol.VersionInfo) :
    runSteps h (versionChange version1 version2) result =
      pure (compareVersions result version1 version2) := by
  cases version1 <;> cases version2 <;> simp [versionChange, compareVersions]

end Run

end Stg
