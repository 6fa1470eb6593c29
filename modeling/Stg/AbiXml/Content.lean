import Stg.AbiXml.Reader
import Stg.Copies
import Stg.Walks

set_option autoImplicit false

/- What the nodes of a document say, in terms of what the document calls them. -/
namespace Stg.AbiXml

/-- What a node is for that has no type id of its own. -/
inductive Role where
  | chain
  | function
  | baseClass
  | member
  | method
  | symbol
  | root
  deriving DecidableEq

/-- What a node comes with that has no type id of its own: the definition of a type, an
ELF symbol id in the corpus of some number, or the document. -/
inductive Owner where
  | type (typeId : String)
  | symbol (corpus : Nat) (symbolId : String)
  | document
  deriving DecidableEq

/-- What a node is known by, whatever id it gets: a type id, the one type of variadic
parameters, or a number among the nodes of an owner. -/
inductive Address where
  | type (typeId : String)
  | variadic
  | part (role : Role) (owner : Owner) (index : Nat)
  deriving DecidableEq

structure Aggregate where
  bytesize : UInt64
  baseClasses : List Address
  methods : List Address
  members : List Address

structure SymbolTable where
  symbols : List (SymbolKey × Address)
  ascending : (symbols.map (·.1)).Pairwise (· < ·)

theorem SymbolTable.ascending_empty :
    (([] : List (SymbolKey × Address)).map (·.1)).Pairwise (· < ·) := .nil

def SymbolTable.empty : SymbolTable := ⟨[], SymbolTable.ascending_empty⟩

def SymbolTable.keys (self : SymbolTable) : List SymbolKey := self.symbols.map (·.1)

def SymbolTable.insert (self : SymbolTable) (key : SymbolKey) (address : Address) : SymbolTable :=
  ⟨Ordered.insert self.symbols key address, Ordered.ascending_insert self.ascending⟩

/-- A node with addresses in the place of ids. -/
inductive Content where
  | void
  | variadic
  | pointerReference (kind : PointerReference.Kind) (pointee : Address)
  | typedef (name : String) (referred : Address)
  | qualified (qualifier : Qualifier) (type : Address)
  | integer (node : Integer)
  | array (numberOfElements : UInt64) (element : Address)
  | baseClass (type : Address) (offset : UInt64) (inheritance : BaseClass.Inheritance)
  | member (name : String) (type : Address) (offset : UInt64)
  | method (mangledName name : String) (kind : Method.Kind) (vtableOffset : Option UInt64)
      (type : Address)
  | structUnion (kind : StructUnion.Kind) (name : String) (definition : Option Aggregate)
  | enumeration (node : Enumeration)
  | function (returnType : Address) (parameters : List (String × Address))
  | elfSymbol (node : ElfSymbol) (type : Option Address)
  | symbols (table : SymbolTable)

section

variable (place : Address → Id)

def Aggregate.definition (self : Aggregate) : StructUnion.Definition where
  bytesize := self.bytesize
  baseClasses := self.baseClasses.map place
  methods := self.methods.map place
  members := self.members.map place

def SymbolTable.node (self : SymbolTable) : Symbols where
  symbols := self.symbols.map fun symbol => (symbol.1, place symbol.2)
  ascending := by
    rw [List.map_map]
    exact self.ascending

/-- The node, when the nodes it refers to are where they are placed. -/
def Content.node : Content → Node
  | .void => .void
  | .variadic => .variadic
  | .pointerReference kind pointee => .pointerReference ⟨kind, place pointee⟩
  | .typedef name referred => .typedef ⟨name, place referred⟩
  | .qualified qualifier type => .qualified ⟨qualifier, place type⟩
  | .integer node => .integer node
  | .array numberOfElements element => .array ⟨numberOfElements, place element⟩
  | .baseClass type offset inheritance => .baseClass ⟨place type, offset, inheritance⟩
  | .member name type offset => .member ⟨name, place type, offset, 0⟩
  | .method mangledName name kind vtableOffset type =>
    .method ⟨mangledName, name, kind, vtableOffset, place type⟩
  | .structUnion kind name definition =>
    .structUnion ⟨kind, name, definition.map (·.definition place)⟩
  | .enumeration node => .enumeration node
  | .function returnType parameters =>
    .function ⟨place returnType, parameters.map fun p => ⟨p.1, place p.2⟩⟩
  | .elfSymbol node type => .elfSymbol { node with typeId := type.map place }
  | .symbols table => .symbols (table.node place)

end

def Content.references : Content → List Address
  | .void | .variadic | .integer _ | .enumeration _ => []
  | .pointerReference _ type | .typedef _ type | .qualified _ type | .array _ type
  | .baseClass type _ _ | .member _ type _ | .method _ _ _ _ type => [type]
  | .structUnion _ _ none => []
  | .structUnion _ _ (some definition) =>
    definition.baseClasses ++ definition.methods ++ definition.members
  | .function returnType parameters => returnType :: parameters.map (·.2)
  | .elfSymbol _ type => type.toList
  | .symbols table => table.symbols.map (·.2)

/-- The address is of a type. -/
def Address.IsType : Address → Prop
  | .type _ | .variadic | .part .chain _ _ | .part .function _ _ => True
  | .part _ _ _ => False

def Address.IsDefined : Address → Prop
  | .type _ => True
  | _ => False

def Address.Plays (role : Role) : Address → Prop
  | .part other _ _ => other = role
  | _ => False

theorem Address.type_ne_variadic (typeId : String) : Address.type typeId ≠ .variadic := nofun

theorem Address.part_ne_variadic (role : Role) (owner : Owner) (index : Nat) :
    Address.part role owner index ≠ .variadic := nofun

theorem Address.type_ne_part (typeId : String) (role : Role) (owner : Owner) (index : Nat) :
    Address.type typeId ≠ .part role owner index := nofun

theorem Address.isType_of_plays {address : Address}
    (plays : address.Plays .chain ∨ address.Plays .function) : address.IsType := by
  cases address with
  | type => trivial
  | variadic => trivial
  | part role owner index =>
    rcases plays with chain | function
    · cases (chain : role = .chain)
      trivial
    · cases (function : role = .function)
      trivial

/-- Whether the content may stand at the address, and refers to addresses that it may
refer to. -/
def Content.Fits : Content → Address → Prop
  | .void, address | .integer _, address | .enumeration _, address
  | .structUnion _ _ none, address => address.IsDefined
  | .variadic, address => address = .variadic
  | .pointerReference _ type, address | .typedef _ type, address =>
    address.IsDefined ∧ type.IsType
  | .qualified _ type, address | .array _ type, address =>
    (address.IsDefined ∨ address.Plays .chain) ∧ type.IsType
  | .baseClass type _ _, address => address.Plays .baseClass ∧ type.IsType
  | .member _ type _, address => address.Plays .member ∧ type.IsType
  | .method _ _ _ _ type, address => address.Plays .method ∧ type.IsType
  | .structUnion _ _ (some definition), address =>
    address.IsDefined ∧ (∀ base ∈ definition.baseClasses, base.Plays .baseClass) ∧
      (∀ method ∈ definition.methods, method.Plays .method) ∧
      ∀ member ∈ definition.members, member.Plays .member
  | .function returnType parameters, address =>
    (address.IsDefined ∨ address.Plays .function) ∧ returnType.IsType ∧
      ∀ p ∈ parameters, p.2.IsType
  | .elfSymbol _ type, address => address.Plays .symbol ∧ ∀ given ∈ type.toList, given.IsType
  | .symbols table, address =>
    address.Plays .root ∧ ∀ symbol ∈ table.symbols, symbol.2.Plays .symbol

variable {place place' : Address → Id} {content : Content}

theorem Content.node_references (place : Address → Id) (content : Content) :
    (content.node place).references = content.references.map place := by
  cases content with
  | structUnion kind name definition =>
    cases definition with
    | none => rfl
    | some definition => simp [node, references, Node.references, Aggregate.definition]
  | elfSymbol node type =>
    cases type with
    | none => rfl
    | some type => rfl
  | function => simp [node, references, Node.references]
  | symbols => simp [node, references, Node.references, SymbolTable.node]
  | _ => rfl

/-- Only the places of what it refers to matter to a node. -/
theorem Content.node_congr (same : ∀ address ∈ content.references, place address = place' address) :
    content.node place = content.node place' := by
  cases content with
  | structUnion kind name definition =>
    cases definition with
    | none => rfl
    | some definition =>
      have bases := List.map_congr_left fun address (among : address ∈ definition.baseClasses) =>
        same address (by simp [references, among])
      have methods := List.map_congr_left fun address (among : address ∈ definition.methods) =>
        same address (by simp [references, among])
      have members := List.map_congr_left fun address (among : address ∈ definition.members) =>
        same address (by simp [references, among])
      simp [node, Aggregate.definition, bases, methods, members]
  | elfSymbol node type =>
    cases type with
    | none => rfl
    | some type => simp [Content.node, same type (by simp [references])]
  | function returnType parameters =>
    have first := same returnType (by simp [references])
    have rest : ∀ p ∈ parameters, place p.2 = place' p.2 := by
      intro p among
      apply same
      simp only [references, List.mem_cons, List.mem_map]
      exact .inr ⟨p, among, rfl⟩
    simp only [node, first, Node.function.injEq, FunctionNode.mk.injEq, true_and]
    exact List.map_congr_left fun p among => by rw [rest p among]
  | symbols table =>
    have entries : ∀ symbol ∈ table.symbols, place symbol.2 = place' symbol.2 := by
      intro symbol among
      exact same _ (List.mem_map_of_mem among)
    simp only [node, SymbolTable.node, Node.symbols.injEq, Symbols.mk.injEq]
    exact List.map_congr_left fun symbol among => by rw [entries symbol among]
  | pointerReference | typedef | qualified | array | baseClass | member | method =>
    simp [node, same _ (List.mem_singleton_self _)]
  | void | variadic | integer | enumeration => rfl

/-- Renaming the ids of a node is placing what it refers to elsewhere. -/
theorem Content.rename_node (f : Id → Id) (place : Address → Id) (content : Content) :
    (content.node place).rename f = content.node fun address => f (place address) := by
  cases content with
  | structUnion kind name definition =>
    cases definition with
    | none => rfl
    | some definition =>
      simp [node, Node.rename, Aggregate.definition, StructUnion.Definition.rename]
  | elfSymbol node type =>
    cases type with
    | none => rfl
    | some type => rfl
  | function => simp [node, Node.rename, Function.comp_def]
  | symbols => simp [node, Node.rename, SymbolTable.node, Symbols.rename, Function.comp_def]
  | _ => rfl

end Stg.AbiXml
