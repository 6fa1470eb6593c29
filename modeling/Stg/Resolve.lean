import Stg.Graph
import Stg.Lib.Sweep
import Mathlib.Data.List.Sort

set_option autoImplicit false

/- The walks over the graph that `Compare` and `Equals` make before they compare:
following qualifiers, following typedefs and computing matching keys. None of
them remembers where it has been, so each takes fuel. -/
namespace Stg

/-- Qualifiers are collected, but discarded by arrays and functions. -/
def Node.resolveQualifier (node : Node) (qualifiers : Qualifiers) : Option Id × Qualifiers :=
  match node with
  | .array _ => (none, ∅)
  | .function _ => (none, ∅)
  | .qualified node => (some node.qualifiedTypeId, insert node.qualifier qualifiers)
  | _ => (none, qualifiers)

def Node.resolveTypedef (node : Node) (typedefs : List String) : Option Id × List String :=
  match node with
  | .typedef node => (some node.referredTypeId, typedefs ++ [node.name])
  | _ => (none, typedefs)

def resolveQualifiers (graph : Graph) :
    Nat → Id → Qualifiers → Except Error (Id × Qualifiers)
  | 0, _, _ => .error .outOfFuel
  | fuel + 1, id, qualifiers => do
    let node ← graph.get id
    match node.resolveQualifier qualifiers with
    | (some id, qualifiers) => resolveQualifiers graph fuel id qualifiers
    | (none, qualifiers) => pure (id, qualifiers)

def resolveTypedefs (graph : Graph) :
    Nat → Id → List String → Except Error (Id × List String)
  | 0, _, _ => .error .outOfFuel
  | fuel + 1, id, typedefs => do
    let node ← graph.get id
    match node.resolveTypedef typedefs with
    | (some id, typedefs) => resolveTypedefs graph fuel id typedefs
    | (none, typedefs) => pure (id, typedefs)

/-- The first non-empty key among the members, or the empty string. -/
def firstKey (key : Id → Except Error String) : List Id → Except Error String
  | [] => pure ""
  | member :: members => do
    let recursive ← key member
    if recursive ≠ "" then pure recursive else firstKey key members

def matchingKey (graph : Graph) : Nat → Id → Except Error String
  | 0, _ => .error .outOfFuel
  | fuel + 1, id => do
    match ← graph.get id with
    | .baseClass node => matchingKey graph fuel node.typeId
    | .member node =>
      if node.name ≠ "" then pure node.name else matchingKey graph fuel node.typeId
    | .method node => pure (node.name ++ "," ++ node.mangledName)
    | .structUnion node =>
      if node.name ≠ "" then pure node.name
      else
        match node.definition with
        | some definition => firstKey (matchingKey graph fuel) definition.members
        | none => pure ""
    | _ => pure ""

abbrev KeyIndexPairs := List (String × Nat)

/-- The order of `std::pair`: by key, then by index. -/
def sortPairs (keys : KeyIndexPairs) : KeyIndexPairs :=
  keys.insertionSort fun a b => toLex a ≤ toLex b

/-- The keys of the nodes from index `ix` on, the keyless ones numbered from `anonymousIx`. -/
def indexKeys (key : Id → Except Error String) :
    Nat → Nat → List Id → Except Error KeyIndexPairs
  | _, _, [] => pure []
  | ix, anonymousIx, node :: nodes => do
    let own ← key node
    if own = "" then
      let rest ← indexKeys key (ix + 1) (anonymousIx + 1) nodes
      pure (("#anon#" ++ toString anonymousIx, ix) :: rest)
    else
      let rest ← indexKeys key (ix + 1) anonymousIx nodes
      pure ((own, ix) :: rest)

def matchingKeys (graph : Graph) (fuel : Nat) (nodes : List Id) : Except Error KeyIndexPairs := do
  let keys ← indexKeys (matchingKey graph fuel) 0 0 nodes
  pure (sortPairs keys)

abbrev MatchedPairs := List (Option Nat × Option Nat)

def pairUp (keys1 keys2 : KeyIndexPairs) : MatchedPairs :=
  (Sweep.sweep (·.1) (·.1) keys1 keys2).map fun pair => (pair.1.map (·.2), pair.2.map (·.2))

def Enumeration.Definition.getEnumNames (definition : Enumeration.Definition) : KeyIndexPairs :=
  sortPairs (definition.enumerators.zipIdx.map fun item => (item.1.1, item.2))

end Stg
