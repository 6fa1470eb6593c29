import Stg.Order
import Stg.Resolve
import Stg.Result

set_option autoImplicit false

/- The `Equals` methods. They are written over any monad, with the functions they
call back as parameters: `Compare` runs them over its state, and the definition
of the child comparisons runs the same code over a record of the calls. -/
namespace Stg

structure Handlers (m : Type → Type) where
  compare : Id → Id → m Answer
  removed : Id → m Comparison
  added : Id → m Comparison

section

variable {m : Type → Type} [Monad m] [MonadExceptOf Error m]

def ofExcept {α : Type} : Except Error α → m α
  | .ok value => pure value
  | .error reason => throw reason

@[simp] theorem ofExcept_ok {α : Type} (value : α) :
    (ofExcept (.ok value) : m α) = pure value := rfl

/-- Reads an optional value, or an element that may lie past the end. -/
def deref {α : Type} : Option α → m α
  | some value => pure value
  | none => throw .undefined

variable (h : Handlers m)

def PointerReference.equals (self other : PointerReference) : m Result := do
  let result : Result := {}
  if self.kind ≠ other.kind then
    pure result.markIncomparable
  else
    let typeDiff ← h.compare self.pointeeTypeId other.pointeeTypeId
    let text := if self.kind = .pointer then "pointed-to" else "referred-to"
    pure (result.maybeAddEdgeDiff text typeDiff)

def Integer.equals (self other : Integer) : m Result := do
  let result : Result := {}
  let result := result.maybeAddNodeDiff "encoding" self.encoding other.encoding
  let result := result.maybeAddNodeDiff "bit size" self.bitsize other.bitsize
  if self.bitsize ≠ self.bytesize * 8 ∧ other.bitsize ≠ other.bytesize * 8 then
    pure (result.maybeAddNodeDiff "byte size" self.bytesize other.bytesize)
  else
    pure result

def ArrayNode.equals (self other : ArrayNode) : m Result := do
  let result : Result := {}
  let result := result.maybeAddNodeDiff "number of elements"
    self.numberOfElements other.numberOfElements
  let typeDiff ← h.compare self.elementTypeId other.elementTypeId
  pure (result.maybeAddEdgeDiff "element" typeDiff)

def definedText (defined : Bool) : String :=
  if defined then "fully defined" else "only declared"

/-- Whether both are defined; if not, a difference in status may be recorded. -/
def compareDefined (defined1 defined2 : Bool) (result : Result) (ignoreDiff : Bool) :
    Bool × Result :=
  if defined1 && defined2 then (true, result)
  else if !ignoreDiff && defined1 != defined2 then
    (false, result.addNodeDiff
      ("was " ++ definedText defined1 ++ ", is now " ++ definedText defined2))
  else (false, result)

def compareNodesPair (nodes1 nodes2 : List Id) (result : Result) :
    Option Nat × Option Nat → m Result
  | (some index1, none) => do
    let node1 ← deref nodes1[index1]?
    let comparison ← h.removed node1
    pure (result.addEdgeDiff "" comparison)
  | (none, some index2) => do
    let node2 ← deref nodes2[index2]?
    let comparison ← h.added node2
    pure (result.addEdgeDiff "" comparison)
  | (index1, index2) => do
    let node1 ← deref (index1.bind (nodes1[·]?))
    let node2 ← deref (index2.bind (nodes2[·]?))
    let diff ← h.compare node1 node2
    pure (result.maybeAddEdgeDiff "" diff)

/-- Base classes and members are put in the order of their definitions, methods are not. -/
def arrange (reordered : Bool) (pairs : MatchedPairs) : Except Error MatchedPairs :=
  if reordered then reorder pairs else pure pairs

def compareNodes (graph : Graph) (fuel : Nat) (result : Result) (nodes1 nodes2 : List Id)
    (reordered : Bool) : m Result := do
  let keys1 ← ofExcept (matchingKeys graph fuel nodes1)
  let keys2 ← ofExcept (matchingKeys graph fuel nodes2)
  let pairs ← ofExcept (arrange reordered (pairUp keys1 keys2))
  pairs.foldlM (compareNodesPair h nodes1 nodes2) result

def BaseClass.equals (self other : BaseClass) : m Result := do
  let result : Result := {}
  let result := result.maybeAddNodeDiff "inheritance" self.inheritance other.inheritance
  let result := result.maybeAddNodeDiff "offset" self.offset other.offset
  let typeDiff ← h.compare self.typeId other.typeId
  pure (result.maybeAddEdgeDiff "" typeDiff)

def Member.equals (self other : Member) : m Result := do
  let result : Result := {}
  let result := result.maybeAddNodeDiff "offset" self.offset other.offset
  let result := result.maybeAddNodeDiff "size" self.bitsize other.bitsize
  let typeDiff ← h.compare self.typeId other.typeId
  pure (result.maybeAddEdgeDiff "" typeDiff)

def Method.equals (self other : Method) : m Result := do
  let result : Result := {}
  let result := result.maybeAddNodeDiff "kind" self.kind other.kind
  let result := result.maybeAddOptionalNodeDiff "vtable offset" self.vtableOffset other.vtableOffset
  let typeDiff ← h.compare self.typeId other.typeId
  pure (result.maybeAddEdgeDiff "" typeDiff)

def StructUnion.equals (graph : Graph) (options : CompareOptions) (fuel : Nat)
    (self other : StructUnion) : m Result := do
  let result : Result := {}
  if self.kind ≠ other.kind ∨ self.name ≠ other.name then
    pure result.markIncomparable
  else
    let result : Result := { diff := { holdsChanges := self.name ≠ "" } }
    match compareDefined self.definition.isSome other.definition.isSome result
      options.ignoreTypeDeclarationStatusChanges with
    | (false, result) => pure result
    | (true, result) =>
      let definition1 ← deref self.definition
      let definition2 ← deref other.definition
      let result := result.maybeAddNodeDiff "byte size" definition1.bytesize definition2.bytesize
      let result ← compareNodes h graph fuel result
        definition1.baseClasses definition2.baseClasses true
      let result ← compareNodes h graph fuel result definition1.methods definition2.methods false
      compareNodes h graph fuel result definition1.members definition2.members true

def enumeratorText (enumerator : String × Int64) (action : String) : String :=
  "enumerator " ++ quoted enumerator.1 ++ " (" ++ print enumerator.2 ++ ") was " ++ action

def compareEnumeratorsPair (enums1 enums2 : List (String × Int64)) (result : Result) :
    Option Nat × Option Nat → m Result
  | (some index1, none) => do
    let enum1 ← deref enums1[index1]?
    pure (result.addNodeDiff (enumeratorText enum1 "removed"))
  | (none, some index2) => do
    let enum2 ← deref enums2[index2]?
    pure (result.addNodeDiff (enumeratorText enum2 "added"))
  | (index1, index2) => do
    let enum1 ← deref (index1.bind (enums1[·]?))
    let enum2 ← deref (index2.bind (enums2[·]?))
    pure (result.maybeAddNodeDiff ("enumerator " ++ quoted enum1.1 ++ " value") enum1.2 enum2.2)

def Enumeration.equals (options : CompareOptions) (self other : Enumeration) : m Result := do
  let result : Result := {}
  if self.name ≠ other.name then
    pure result.markIncomparable
  else
    let result : Result := { diff := { holdsChanges := self.name ≠ "" } }
    match compareDefined self.definition.isSome other.definition.isSome result
      options.ignoreTypeDeclarationStatusChanges with
    | (false, result) => pure result
    | (true, result) =>
      let definition1 ← deref self.definition
      let definition2 ← deref other.definition
      let result := result.maybeAddNodeDiff "byte size" definition1.bytesize definition2.bytesize
      let pairs ← ofExcept (reorder (pairUp definition1.getEnumNames definition2.getEnumNames))
      pairs.foldlM (compareEnumeratorsPair definition1.enumerators definition2.enumerators) result

/-- The label of the edge between two parameters in position `i`. -/
def parameterText (i : Nat) (name1 name2 : String) : String :=
  "parameter " ++ toString (i + 1) ++
    if name1 = name2 ∧ name1 ≠ "" then " (" ++ quoted name1 ++ ")"
    else if name1 ≠ name2 then
      " (" ++ (if name1 ≠ "" then "was " ++ quoted name1 else "") ++
        (if name1 ≠ "" ∧ name2 ≠ "" then ", " else "") ++
        (if name2 ≠ "" then "now " ++ quoted name2 else "") ++ ")"
    else ""

/-- The label of the edge to a parameter that only one side has. -/
def unmatchedParameterText (i : Nat) (name : String) : String :=
  "parameter " ++ toString (i + 1) ++ (if name ≠ "" then " (" ++ quoted name ++ ")" else "") ++ " of"

def FunctionNode.equals (self other : FunctionNode) : m Result := do
  let result : Result := {}
  let typeDiff ← h.compare self.returnTypeId other.returnTypeId
  let result := result.maybeAddEdgeDiff "return" typeDiff
  let min := min self.parameters.length other.parameters.length
  let result ← (self.parameters.zip other.parameters).zipIdx.foldlM
    (fun result ((p1, p2), i) => do
      let diff ← h.compare p1.typeId p2.typeId
      pure (result.maybeAddEdgeDiff (parameterText i p1.name p2.name) diff)) result
  let added := decide (self.parameters.length < other.parameters.length)
  let which := if added then other else self
  ((which.parameters.drop min).zipIdx min).foldlM
    (fun result (parameter, i) => do
      let diff ← if added then h.added parameter.typeId else h.removed parameter.typeId
      pure (result.addEdgeDiff (unmatchedParameterText i parameter.name) diff)) result

def compareVersions (result : Result) :
    Option ElfSymbol.VersionInfo → Option ElfSymbol.VersionInfo → Result
  | some version1, some version2 =>
    (result.maybeAddNodeDiff "version" version1.name version2.name).maybeAddNodeDiff
      "default version" version1.isDefault version2.isDefault
  | version1, version2 => result.maybeAddNodeDiff "has version" version1.isSome version2.isSome

def ElfSymbol.equals (options : CompareOptions) (self other : ElfSymbol) : m Result := do
  let result : Result := {}
  let result := result.maybeAddNodeDiff "name" self.symbolName other.symbolName
  let result := compareVersions result self.versionInfo other.versionInfo
  let result := result.maybeAddNodeDiff "defined" self.isDefined other.isDefined
  let result := result.maybeAddNodeDiff "symbol type" self.symbolType other.symbolType
  let result := result.maybeAddNodeDiff "binding" self.binding other.binding
  let result := result.maybeAddNodeDiff "visibility" self.visibility other.visibility
  let result := result.maybeAddOptionalNodeDiff "CRC" self.crc other.crc
  match self.typeId, other.typeId with
  | some type1, some type2 =>
    let typeDiff ← h.compare type1 type2
    pure (result.maybeAddEdgeDiff "" typeDiff)
  | some type1, none =>
    if options.ignoreSymbolTypePresenceChanges then pure result
    else
      let diff ← h.removed type1
      pure (result.addEdgeDiff "" diff)
  | none, some type2 =>
    if options.ignoreSymbolTypePresenceChanges then pure result
    else
      let diff ← h.added type2
      pure (result.addEdgeDiff "" diff)
  | none, none => pure result

/-- The label of the edge to a symbol. -/
def quotePath (path : String) : String :=
  if path = "" ∨ path = "vmlinux" then "" else "\x27" ++ path ++ "\x27"

/-- The three groups that the loop over the two maps of symbols makes. -/
def removedSymbol {α : Type} : Option α × Option α → Option α
  | (some symbol1, none) => some symbol1
  | _ => none

def addedSymbol {α : Type} : Option α × Option α → Option α
  | (none, some symbol2) => some symbol2
  | _ => none

def symbolsInBoth {α : Type} : Option α × Option α → Option (α × α)
  | (some symbol1, some symbol2) => some (symbol1, symbol2)
  | _ => none

def Symbols.equals (self other : Symbols) : m Result := do
  let result : Result := { diff := { holdsChanges := true } }
  let swept := Sweep.sweep (·.1) (·.1) self.symbols other.symbols
  let result ← (swept.filterMap removedSymbol).foldlM (fun result symbol1 => do
    let diff ← h.removed symbol1.2
    pure (result.addEdgeDiff (quotePath symbol1.1.path) diff)) result
  let result ← (swept.filterMap addedSymbol).foldlM (fun result symbol2 => do
    let diff ← h.added symbol2.2
    pure (result.addEdgeDiff (quotePath symbol2.1.path) diff)) result
  (swept.filterMap symbolsInBoth).foldlM (fun result (symbol1, symbol2) => do
    let diff ← h.compare symbol1.2 symbol2.2
    pure (result.maybeAddEdgeDiff (quotePath symbol1.1.path) diff)) result

/-- Dynamic dispatch; a node of another kind fails the cast of `as`. -/
def Node.equals (graph : Graph) (options : CompareOptions) (fuel : Nat) :
    Node → Node → m Result
  | .void, .void => pure {}
  | .variadic, .variadic => pure {}
  | .pointerReference self, .pointerReference other => self.equals h other
  | .typedef _, .typedef _ => die "internal error: Typedef::Equals"
  | .qualified _, .qualified _ => die "internal error: Qualified::Equals"
  | .integer self, .integer other => self.equals other
  | .array self, .array other => self.equals h other
  | .baseClass self, .baseClass other => self.equals h other
  | .member self, .member other => self.equals h other
  | .method self, .method other => self.equals h other
  | .structUnion self, .structUnion other => self.equals h graph options fuel other
  | .enumeration self, .enumeration other => self.equals options other
  | .function self, .function other => self.equals h other
  | .elfSymbol self, .elfSymbol other => self.equals h options other
  | .symbols self, .symbols other => self.equals h other
  | _, _ => die "std::bad_cast"

def qualifiersMessage (qualifier : Qualifier) (action : String) : String :=
  "qualifier " ++ print qualifier ++ " " ++ action

/-- The two-pointer loop over the two sets of qualifiers. -/
def compareQualifiers (qualifiers1 qualifiers2 : Qualifiers) (result : Result) : Result :=
  (Sweep.sweep (fun q : Qualifier => q.ctorIdx) (fun q : Qualifier => q.ctorIdx)
      qualifiers1.inOrder qualifiers2.inOrder).foldl
    (fun result pair =>
      match pair with
      | (some qualifier, none) => result.addNodeDiff (qualifiersMessage qualifier "removed")
      | (none, some qualifier) => result.addNodeDiff (qualifiersMessage qualifier "added")
      | _ => result) result

/-- The part of `Compare` between opening and closing: look through qualifiers,
then through typedefs, then compare the nodes themselves. -/
def examine (graph : Graph) (options : CompareOptions) (fuel : Nat) (node1 node2 : Id) :
    m Result := do
  let (unqualified1, qualifiers1) ← ofExcept (resolveQualifiers graph fuel node1 ∅)
  let (unqualified2, qualifiers2) ← ofExcept (resolveQualifiers graph fuel node2 ∅)
  if qualifiers1 ≠ ∅ ∨ qualifiers2 ≠ ∅ then
    let result := compareQualifiers qualifiers1 qualifiers2 {}
    let typeDiff ← h.compare unqualified1 unqualified2
    pure (result.maybeAddEdgeDiff "underlying" typeDiff)
  else
    let (resolved1, typedefs1) ← ofExcept (resolveTypedefs graph fuel unqualified1 [])
    let (resolved2, typedefs2) ← ofExcept (resolveTypedefs graph fuel unqualified2 [])
    if unqualified1 ≠ resolved1 ∨ unqualified2 ≠ resolved2 then
      let holdsChanges := typedefs1 ≠ [] ∧ typedefs2 ≠ [] ∧ typedefs1.head? = typedefs2.head?
      let result : Result := { diff := { holdsChanges } }
      let typeDiff ← h.compare resolved1 resolved2
      pure (result.maybeAddEdgeDiff "resolved" typeDiff)
    else
      let type1 ← ofExcept (graph.get unqualified1)
      let type2 ← ofExcept (graph.get unqualified2)
      if type1.kind ≠ type2.kind then
        pure ({} : Result).markIncomparable
      else
        type1.equals h graph options fuel type2

end

end Stg
