import Stg.Result
import Stg.Equals
import Mathlib.Data.List.AList

set_option autoImplicit false

/- The names of nodes. A name has a stem on the left and array bounds and parameter
lists on the right; cycles are cut by the cache. -/
namespace Stg

/-- How tightly the outermost part of a name binds. -/
inductive Precedence where
  | nil
  | pointer
  | arrayFunction
  | atomic
  deriving DecidableEq, Repr

inductive Side where
  | left
  | right
  deriving DecidableEq, Repr

structure Name where
  left : String
  precedence : Precedence := .nil
  right : String := ""
  deriving DecidableEq, Repr

/-- Text is put on one side, in parentheses about what binds less tightly. -/
def Name.add (self : Name) (side : Side) (precedence : Precedence) (text : String) : Name :=
  let bracket := precedence.ctorIdx < self.precedence.ctorIdx
  -- bits on the left need (sometimes) to be separated by whitespace
  let left := self.left ++ if bracket then "(" else if side = .left then " " else ""
  { left := if side = .left then left ++ text else left
    precedence
    right := (if side = .right then text else "") ++ (if bracket then ")" else "") ++ self.right }

/-- Qualifiers go before a plain name and after a pointer. -/
def Name.qualify (self : Name) (qualifiers : Qualifiers) : Except Error Name :=
  -- this covers the case when bad qualifiers have been dropped
  if qualifiers = ∅ then pure self
  else
    match self.precedence with
    | .nil =>
      pure { self with
        left := String.join (qualifiers.inOrder.map fun q => print q ++ " ") ++ self.left }
    | .pointer =>
      pure { self with
        left := self.left ++ String.join (qualifiers.inOrder.map fun q => " " ++ print q) }
    | _ => die "qualifiers found for inappropriate node"

instance : Print Name := ⟨fun name => name.left ++ name.right⟩

abbrev NameCache := AList fun _ : Id => Name

abbrev NameM := StateT NameCache (Except Error)

section

variable (graph : Graph) (fuel : Nat) (describe : Id → NameM Name)

/-- The names of a list of nodes, each with what goes before and after it. -/
def describeAll (before after : String) : List Id → NameM String
  | [] => pure ""
  | id :: ids => do
    let name ← describe id
    let rest ← describeAll before after ids
    pure (before ++ print name ++ after ++ rest)

def ElfSymbol.versionInfoToString (versionInfo : ElfSymbol.VersionInfo) : String :=
  "@" ++ (if versionInfo.isDefault then "@" else "") ++ versionInfo.name

/-- The name, or the members of an anonymous struct or union. -/
def StructUnion.describeBody (self : StructUnion) : NameM String :=
  if self.name ≠ "" then pure self.name
  else
    match self.definition with
    | some definition => do
      let members ← describeAll describe "" "; " definition.members
      pure ("\x7b " ++ members ++ "\x7d")
    | none => pure ""

/-- `struct` or `union`, and the name or the body. -/
def StructUnion.makeDescription (self : StructUnion) : NameM Name := do
  let body ← self.describeBody describe
  pure { left := print self.kind ++ " " ++ body }

def Enumeration.makeDescription (self : Enumeration) : Name :=
  let text := if self.name ≠ "" then self.name
    else
      match self.definition with
      | some definition => "\x7b " ++ String.join (definition.enumerators.map fun enumerator =>
          enumerator.1 ++ " = " ++ print enumerator.2 ++ ", ") ++ "\x7d"
      | none => ""
  { left := "enum " ++ text }

def describeParameters : List Id → NameM String
  | [] => pure ""
  | first :: others => do
    let name ← describe first
    let rest ← describeAll describe ", " "" others
    pure (print name ++ rest)

def FunctionNode.makeDescription (self : FunctionNode) : NameM Name := do
  let parameters ← describeParameters describe (self.parameters.map (·.typeId))
  let returned ← describe self.returnTypeId
  pure (returned.add .right .arrayFunction ("(" ++ parameters ++ ")"))

/-- The size of a bit-field follows the member on the right. -/
def Member.makeDescription (self : Member) : NameM Name := do
  let description ← describe self.typeId
  let description :=
    if self.name ≠ "" then description.add .left .atomic self.name else description
  pure (if self.bitsize ≠ 0 then description.add .right .atomic (" : " ++ print self.bitsize)
    else description)

/-- The visitor `Describe`, one case for each kind of node. -/
def Node.makeDescription : Node → NameM Name
  | .void => pure { left := "void" }
  | .variadic => pure { left := "..." }
  | .pointerReference node => do
    let sign := match node.kind with
      | .pointer => "*"
      | .lvalueReference => "&"
      | .rvalueReference => "&&"
    let pointee ← describe node.pointeeTypeId
    pure (pointee.add .left .pointer sign)
  | .typedef node => pure { left := node.name }
  | .qualified node => do
    let (under, qualifiers) ←
      ofExcept (resolveQualifiers graph fuel node.qualifiedTypeId {node.qualifier})
    let name ← describe under
    ofExcept (name.qualify qualifiers)
  | .integer node => pure { left := node.name }
  | .array node => do
    let element ← describe node.elementTypeId
    pure (element.add .right .arrayFunction ("[" ++ print node.numberOfElements ++ "]"))
  | .baseClass node => do
    let key ← ofExcept (matchingKey graph fuel node.typeId)
    pure { left := key }
  | .member node => node.makeDescription describe
  | .method node =>
    pure { left := if node.mangledName = node.name then node.name
      else node.name ++ " \x7b" ++ node.mangledName ++ "\x7d" }
  | .structUnion node => node.makeDescription describe
  | .enumeration node => pure node.makeDescription
  | .function node => node.makeDescription describe
  | .elfSymbol node =>
    let name := node.fullName.getD node.symbolName
    match node.typeId with
    | some typeId => do
      let type ← describe typeId
      pure (type.add .left .atomic name)
    | none => pure { left := name }
  | .symbols _ => pure { left := "symbols" }

end

/-- What a name is taken to be while it is being made. -/
def blackHole : Name := { left := "#" }

/-- The name from the cache, or made now with the black hole in its place meanwhile. -/
def getDescription (graph : Graph) : Nat → Id → NameM Name
  | 0, _ => throw .outOfFuel
  | fuel + 1, id => do
    match (← get).lookup id with
    | some cached => pure cached
    | none =>
      -- infinite recursion prevention - insert at most once
      modify fun names => names.insert id blackHole
      let node ← ofExcept (graph.get id)
      let name ← node.makeDescription graph fuel (getDescription graph fuel)
      modify fun names => names.insert id name
      pure name

def Node.extraDescription : Node → String
  | .elfSymbol node =>
    let name := node.fullName.getD node.symbolName
    let versioned := node.symbolName ++
      (node.versionInfo.map ElfSymbol.versionInfoToString).getD ""
    if name = versioned then "" else " \x7b" ++ versioned ++ "\x7d"
  | _ => ""

def Node.getKindDescription : Node → String
  | .baseClass _ => "base class"
  | .member _ => "member"
  | .method _ => "method"
  | .elfSymbol node => print node.symbolType ++ " symbol"
  | .symbols _ => "symbols"
  | _ => "type"

/-- The typedefs passed on the way, then the name of the type they stand for. -/
def getResolvedDescription (graph : Graph) (fuel : Nat) (id : Id) : NameM String := do
  let (resolved, typedefs) ← ofExcept (resolveTypedefs graph fuel id [])
  let description ← getDescription graph fuel resolved
  let node ← ofExcept (graph.get resolved)
  pure (String.join (typedefs.map fun typedef => quoted typedef ++ " = ") ++
    "\x27" ++ print description ++ "\x27" ++ node.extraDescription)

end Stg
