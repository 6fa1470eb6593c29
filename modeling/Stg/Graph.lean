import Stg.Error
import Mathlib.Data.Prod.Lex
import Mathlib.Data.String.Basic
import Mathlib.Data.Finset.Insert

set_option autoImplicit false

namespace Stg

/-- A wrapped array index. -/
structure Id where
  ix : Nat
  deriving DecidableEq, Repr

/-- A checksum, which is told from a plain number by its type. -/
structure CRC where
  number : UInt64
  deriving DecidableEq, Repr

structure Parameter where
  name : String
  typeId : Id
  deriving DecidableEq, Repr

inductive Qualifier where
  | const
  | volatile
  | restrict
  deriving DecidableEq, Repr

abbrev Qualifiers := Finset Qualifier

/-- The members of a set of qualifiers in the order of iteration. -/
def Qualifiers.inOrder (qualifiers : Qualifiers) : List Qualifier :=
  [.const, .volatile, .restrict].filter (· ∈ qualifiers)

inductive PointerReference.Kind where
  | pointer
  | lvalueReference
  | rvalueReference
  deriving DecidableEq, Repr

structure PointerReference where
  kind : PointerReference.Kind
  pointeeTypeId : Id
  deriving DecidableEq, Repr

structure Typedef where
  name : String
  referredTypeId : Id
  deriving DecidableEq, Repr

structure Qualified where
  qualifier : Qualifier
  qualifiedTypeId : Id
  deriving DecidableEq, Repr

inductive Integer.Encoding where
  | boolean
  | signedInteger
  | unsignedInteger
  | signedCharacter
  | unsignedCharacter
  | utf
  deriving DecidableEq, Repr

/-- The sizes in bits and in bytes are stored apart. -/
structure Integer where
  name : String
  encoding : Integer.Encoding
  bitsize : UInt32
  bytesize : UInt32
  deriving DecidableEq, Repr

structure ArrayNode where
  numberOfElements : UInt64
  elementTypeId : Id
  deriving DecidableEq, Repr

inductive BaseClass.Inheritance where
  | nonVirtual
  | virtual
  deriving DecidableEq, Repr

structure BaseClass where
  typeId : Id
  offset : UInt64
  inheritance : BaseClass.Inheritance
  deriving DecidableEq, Repr

structure Member where
  name : String
  typeId : Id
  offset : UInt64
  bitsize : UInt64
  deriving DecidableEq, Repr

inductive Method.Kind where
  | nonVirtual
  | static
  | virtual
  deriving DecidableEq, Repr

structure Method where
  mangledName : String
  name : String
  kind : Method.Kind
  vtableOffset : Option UInt64
  typeId : Id
  deriving DecidableEq, Repr

inductive StructUnion.Kind where
  | class_
  | struct
  | union
  deriving DecidableEq, Repr

structure StructUnion.Definition where
  bytesize : UInt64
  baseClasses : List Id
  methods : List Id
  members : List Id
  deriving DecidableEq, Repr

/-- A declaration has no definition. -/
structure StructUnion where
  kind : StructUnion.Kind
  name : String
  definition : Option StructUnion.Definition
  deriving DecidableEq, Repr

structure Enumeration.Definition where
  bytesize : UInt32
  enumerators : List (String × Int64)
  deriving DecidableEq, Repr

structure Enumeration where
  name : String
  definition : Option Enumeration.Definition
  deriving DecidableEq, Repr

/-- Parameters are references and not nodes. -/
structure FunctionNode where
  returnTypeId : Id
  parameters : List Parameter
  deriving DecidableEq, Repr

inductive ElfSymbol.SymbolType where
  | object
  | function
  | common
  | tls
  deriving DecidableEq, Repr

inductive ElfSymbol.Binding where
  | global
  | local_
  | weak
  | gnuUnique
  deriving DecidableEq, Repr

inductive ElfSymbol.Visibility where
  | default
  | protected_
  | hidden
  | internal
  deriving DecidableEq, Repr

structure ElfSymbol.VersionInfo where
  isDefault : Bool
  name : String
  deriving DecidableEq, Repr

structure ElfSymbol where
  symbolName : String
  versionInfo : Option ElfSymbol.VersionInfo
  isDefined : Bool
  symbolType : ElfSymbol.SymbolType
  binding : ElfSymbol.Binding
  visibility : ElfSymbol.Visibility
  crc : Option CRC
  typeId : Option Id
  fullName : Option String
  deriving DecidableEq, Repr

/-- A symbol's place in the map, with the path of its corpus. -/
structure SymbolKey where
  path : String
  name : String
  deriving DecidableEq, Repr

/-- The order of `SymbolKey::compare`: by path, then by name. -/
instance : LinearOrder SymbolKey :=
  LinearOrder.lift' (fun key : SymbolKey => toLex (key.path, key.name)) (by
    rintro ⟨path, name⟩ ⟨path', name'⟩ equal
    simpa using equal)

/-- A map of symbols, as its sequence of entries in increasing order of keys. -/
structure Symbols where
  symbols : List (SymbolKey × Id)
  ascending : (symbols.map (·.1)).Pairwise (· < ·)
  deriving DecidableEq

inductive Node where
  | void
  | variadic
  | pointerReference (node : PointerReference)
  | typedef (node : Typedef)
  | qualified (node : Qualified)
  | integer (node : Integer)
  | array (node : ArrayNode)
  | baseClass (node : BaseClass)
  | member (node : Member)
  | method (node : Method)
  | structUnion (node : StructUnion)
  | enumeration (node : Enumeration)
  | function (node : FunctionNode)
  | elfSymbol (node : ElfSymbol)
  | symbols (node : Symbols)
  deriving DecidableEq

/-- The dynamic type of a node. -/
inductive Node.Kind where
  | void
  | variadic
  | pointerReference
  | typedef
  | qualified
  | integer
  | array
  | baseClass
  | member
  | method
  | structUnion
  | enumeration
  | function
  | elfSymbol
  | symbols
  deriving DecidableEq, Repr

/-- What `typeid` tells apart. -/
def Node.kind : Node → Node.Kind
  | .void => .void
  | .variadic => .variadic
  | .pointerReference _ => .pointerReference
  | .typedef _ => .typedef
  | .qualified _ => .qualified
  | .integer _ => .integer
  | .array _ => .array
  | .baseClass _ => .baseClass
  | .member _ => .member
  | .method _ => .method
  | .structUnion _ => .structUnion
  | .enumeration _ => .enumeration
  | .function _ => .function
  | .elfSymbol _ => .elfSymbol
  | .symbols _ => .symbols

/-- The ids a node refers to. -/
def Node.references : Node → List Id
  | .void | .variadic | .integer _ | .enumeration _ => []
  | .pointerReference node => [node.pointeeTypeId]
  | .typedef node => [node.referredTypeId]
  | .qualified node => [node.qualifiedTypeId]
  | .array node => [node.elementTypeId]
  | .baseClass node => [node.typeId]
  | .member node => [node.typeId]
  | .method node => [node.typeId]
  | .structUnion node =>
    match node.definition with
    | none => []
    | some definition => definition.baseClasses ++ definition.methods ++ definition.members
  | .function node => node.returnTypeId :: node.parameters.map (·.typeId)
  | .elfSymbol node => node.typeId.toList
  | .symbols node => node.symbols.map (·.2)

/-- A slot may be allocated before its node is set. -/
structure Graph where
  nodes : List (Option Node)

namespace Graph

def get (graph : Graph) (id : Id) : Except Error Node :=
  match graph.nodes[id.ix]? with
  | some (some node) => .ok node
  | _ => .error .undefined

def Is (graph : Graph) (id : Id) : Prop := ∃ node, graph.get id = .ok node

/-- One node refers to the other. -/
def Refers (graph : Graph) (id reference : Id) : Prop :=
  ∃ node, graph.get id = .ok node ∧ reference ∈ node.references

/-- Every id that a node of the graph refers to is set. -/
def ReferencesSet (graph : Graph) : Prop :=
  ∀ id node, graph.get id = .ok node → ∀ reference ∈ node.references, graph.Is reference

/-- A node that is set lies inside the vector. -/
theorem Is.lt {graph : Graph} {id : Id} (set : graph.Is id) : id.ix < graph.nodes.length := by
  obtain ⟨node, got⟩ := set
  unfold get at got
  split at got
  · rename_i held
    exact (List.getElem?_eq_some_iff.mp held).1
  · cases got

end Graph

end Stg
