import Stg.AbiXml.Content

set_option autoImplicit false

/- What a document says: the contents of its definitions under their addresses, without
any ids. The readings follow the order in which the elements are processed, since a type
that has been defined is not defined again. -/
namespace Stg.AbiXml

/-- What part of a document says. -/
structure Contents where
  entries : List (Address × Content) := []
  /-- What a reference is made to. -/
  mentions : List Address := []
  /-- The types of the functions that have no ELF symbol. -/
  unlinked : List Content := []
  /-- The type and the full name of what is declared for an ELF symbol id. -/
  declarations : List (String × Address × String) := []

namespace Contents

def append (first second : Contents) : Contents where
  entries := first.entries ++ second.entries
  mentions := first.mentions ++ second.mentions
  unlinked := first.unlinked ++ second.unlinked
  declarations := first.declarations ++ second.declarations

instance : Append Contents := ⟨append⟩

def addresses (contents : Contents) : List Address := contents.entries.map (·.1)

end Contents

/-- A reading of what only mentions addresses. -/
def Mentions (β : Type) := Except Error (β × List Address)

namespace Mentions

variable {β γ : Type}

def andThen (reading : Mentions β) (rest : β → Mentions γ) : Mentions γ :=
  match reading with
  | .ok (value, first) =>
    match rest value with
    | .ok (value, second) => .ok (value, first ++ second)
    | .error reason => .error reason
  | .error reason => .error reason

instance : Monad Mentions where
  pure value := .ok (value, [])
  bind := andThen

instance : MonadExceptOf Error Mentions where
  throw reason := .error reason
  tryCatch reading handler :=
    match reading with
    | .ok result => .ok result
    | .error reason => handler reason

def edge (element : Element) : Mentions Address :=
  match getAttributeOrDie element "type-id" with
  | .ok typeId => .ok (.type typeId, [.type typeId])
  | .error reason => .error reason

def variadic : Mentions Address := .ok (.variadic, [.variadic])

def functionChild (function child : Element) (parameters : List (String × Address))
    (returnType : Option Address) : Mentions (List (String × Address) × Option Address) := do
  check returnType.isNone "unexpected element after return-type"
  if child.name = "parameter" then
    let isVariadic ← ofExcept (readAttribute parseBool child "is-variadic" false)
    if isVariadic then
      let type ← variadic
      return (parameters ++ [("", type)], returnType)
    else
      let type ← edge child
      return (parameters ++ [((getAttribute child "name").getD "", type)], returnType)
  else if child.name = "return" then
    let type ← edge child
    return (parameters, some type)
  else die ("unrecognised " ++ function.name ++ " child element '" ++ child.name ++ "'")

def functionChildren (function : Element) : List Element → List (String × Address) →
    Option Address → Mentions (List (String × Address) × Option Address)
  | [], parameters, returnType => return (parameters, returnType)
  | child :: rest, parameters, returnType => do
    let (parameters, returnType) ← functionChild function child parameters returnType
    functionChildren function rest parameters returnType

def functionType (function : Element) : Mentions Content := do
  let (parameters, returnType) ← functionChildren function function.children [] none
  match returnType with
  | some returnType => return .function returnType parameters
  | none => die "missing return-type"

def typedef (scopeName : String) (typeDefinition : Element) : Mentions Content := do
  let name ← ofExcept (getAttributeOrDie typeDefinition "name")
  let type ← edge typeDefinition
  return .typedef (scopeName ++ name) type

def pointer (isPointer : Bool) (pointer : Element) : Mentions Content := do
  let type ← edge pointer
  let kind ← ofExcept (readPointerKind isPointer pointer)
  return .pointerReference kind type

/-- The innermost type of a chain, and the nodes around it. -/
def qualified (qualified : Element) : Mentions (Address × Qualifier × List Qualifier) := do
  let qualifiers ← ofExcept (readQualifiers qualified)
  match qualifiers with
  | [] => die "qualified-type-def has no qualifiers"
  | qualifier :: qualifiers =>
    let type ← edge qualified
    return (type, qualifier, qualifiers)

def array (array : Element) : Mentions (Address × UInt64 × List UInt64) := do
  let dimensions ← ofExcept (readDimensions array.children)
  match dimensions.reverse with
  | [] => die "array-type-def element has no children"
  | size :: sizes =>
    let type ← edge array
    return (type, size, sizes)

def typeDecl (scopeName : String) (typeDecl : Element) : Mentions Content := do
  let type ← ofExcept (readTypeDecl scopeName typeDecl)
  match type with
  | .integer node => return .integer node
  | _ => return .void

def enum (scopeName : String) (enumeration : Element) : Mentions Content := do
  let (forward, name) ← ofExcept (readEnum scopeName enumeration)
  if forward then return .enumeration ⟨name, none⟩
  else
    match enumeration.children with
    | [] => die "enum-decl has no child elements"
    | underlying :: rest =>
      ofExcept (checkElementName "underlying-type" underlying)
      let _ ← edge underlying
      let enumerators ← ofExcept (readEnumerators rest)
      return .enumeration ⟨name, some ⟨0, enumerators⟩⟩

def baseClass (baseClass : Element) : Mentions Content := do
  let type ← edge baseClass
  let offset ← ofExcept (readAttributeOrDie parseUInt64 baseClass "layout-offset-in-bits")
  let isVirtual ← ofExcept (readAttribute parseBool baseClass "is-virtual" false)
  return .baseClass type offset (if isVirtual then .virtual else .nonVirtual)

/-- A data member that is not static. -/
def dataMember (isStruct : Bool) (dataMember decl : Element) : Mentions Content := do
  let offset ← ofExcept (readMemberOffset isStruct dataMember)
  let name ← ofExcept (getAttributeOrDie decl "name")
  let type ← edge decl
  return .member name type offset

end Mentions

/-- A reading of a part, given what has been said before it. -/
def Meaning (β : Type) := Contents → Except Error (β × Contents)

namespace Meaning

variable {β γ : Type}

def andThen (reading : Meaning β) (rest : β → Meaning γ) : Meaning γ := fun before =>
  match reading before with
  | .ok (value, first) =>
    match rest value (before ++ first) with
    | .ok (value, second) => .ok (value, first ++ second)
    | .error reason => .error reason
  | .error reason => .error reason

instance : Monad Meaning where
  pure value := fun _ => .ok (value, {})
  bind := andThen

instance : MonadExceptOf Error Meaning where
  throw reason := fun _ => .error reason
  tryCatch reading handler := fun before =>
    match reading before with
    | .ok result => .ok result
    | .error reason => handler reason before

def mentioning (reading : Mentions β) : Meaning β := fun _ =>
  match reading with
  | .ok (value, mentions) => .ok (value, { mentions })
  | .error reason => .error reason

def define (address : Address) (content : Content) : Meaning Unit := fun before =>
  if address ∈ before.addresses then .error (.exception "node value already set")
  else .ok ((), { entries := [(address, content)] })

/-- A number that is above that of the address, if it is of a part of the owner. -/
def partEnd (owner : Owner) : Address → Nat
  | .part _ other index => if other = owner then index + 1 else 0
  | _ => 0

def nextPart (owner : Owner) (addresses : List Address) : Nat :=
  (addresses.map (partEnd owner)).foldr max 0

/-- A node that is not known by a type id. -/
def part (role : Role) (owner : Owner) (content : Content) : Meaning Address := fun before =>
  let address : Address := .part role owner (nextPart owner before.addresses)
  .ok (address, { entries := [(address, content)] })

def unlinked (content : Content) : Meaning Unit := fun _ => .ok ((), { unlinked := [content] })

def declare (symbolId : Option String) (type : Address) (name : String) : Meaning Unit :=
  fun before =>
    match symbolId with
    | some symbolId =>
      match before.declarations.lookup symbolId with
      | some (other, _) =>
        if other = type then .ok ((), {})
        else .error (.exception ("conflicting types for '" ++ symbolId ++ "'"))
      | none => .ok ((), { declarations := [(symbolId, type, name)] })
    | none => .ok ((), {})

/-- A variable, or a static data member. -/
def variableDecl (scopeName : String) (decl : Element) : Meaning Unit := do
  let name ← ofExcept (getAttributeOrDie decl "name")
  let type ← mentioning (.edge decl)
  declare (getAttribute decl "elf-symbol-id") type (scopeName ++ name)

/-- A function that is not a member of a class. -/
def functionDecl (corpus : Nat) (scopeName : String) (decl : Element) : Meaning Unit := do
  let name ← ofExcept (getAttributeOrDie decl "name")
  let content ← mentioning (.functionType decl)
  match getAttribute decl "elf-symbol-id" with
  | some symbolId =>
    let type ← part .function (.symbol corpus symbolId) content
    declare (some symbolId) type (scopeName ++ name)
  | none => unlinked content

/-- The nodes of a chain that end with the one of the given address. -/
def chain (owner : Owner) (address : Address) (content : Address → Content) :
    List (Address → Content) → Address → Meaning Unit
  | [], type => define address (content type)
  | next :: contents, type => do
    let type ← part .chain owner (content type)
    chain owner address next contents type

def qualified (owner : Owner) (address : Address) (element : Element) : Meaning Unit := do
  let (type, qualifier, qualifiers) ← mentioning (.qualified element)
  chain owner address (.qualified qualifier) (qualifiers.map .qualified) type

def array (owner : Owner) (address : Address) (element : Element) : Meaning Unit := do
  let (type, size, sizes) ← mentioning (.array element)
  chain owner address (.array size) (sizes.map .array) type

def single (address : Address) (reading : Mentions Content) : Meaning Unit := do
  let content ← mentioning reading
  define address content

def dataMember (owner : Owner) (scopeName : String) (isStruct : Bool) (dataMember : Element) :
    Meaning (Option Address) := do
  let decl ← ofExcept (getOnlyChild "data-member" dataMember)
  ofExcept (checkElementName "var-decl" decl)
  let isStatic ← ofExcept (readAttribute parseBool dataMember "static" false)
  if isStatic then
    variableDecl scopeName decl
    return none
  else
    let content ← mentioning (.dataMember isStruct dataMember decl)
    let address ← part .member owner content
    return some address

def memberFunction (owner : Owner) (scopeName : String) (method : Element) : Meaning Address := do
  let decl ← ofExcept (getOnlyChild "member-function" method)
  ofExcept (checkElementName "function-decl" decl)
  let mangledName ← ofExcept (getAttributeOrDie decl "mangled-name")
  let name ← ofExcept (getAttributeOrDie decl "name")
  let content ← mentioning (.functionType decl)
  let type ← part .function owner content
  declare (getAttribute decl "elf-symbol-id") type (scopeName ++ name)
  let (kind, vtableOffset) ← ofExcept (readMethodKind method)
  part .method owner (.method mangledName name kind vtableOffset type)

def baseClass (owner : Owner) (baseClass : Element) : Meaning Address := do
  let content ← mentioning (.baseClass baseClass)
  part .baseClass owner content

/-- The members of a struct or union that have been read so far. -/
structure Members where
  baseClasses : List Address
  methods : List Address
  members : List Address

def structUnion (scopeName : String)
    (members : String → Bool → StructUnion.Kind → Members → Meaning Members)
    (address : Address) (isStruct : Bool) (structUnion : Element) : Meaning Unit := do
  let attributes ← ofExcept (readStructUnion isStruct structUnion)
  if attributes.forward then
    define address (.structUnion attributes.kind (attributes.fullName scopeName) none)
  else
    let bits ← ofExcept (readAttribute parseUInt64 structUnion "size-in-bits" 0)
    let made ← members (attributes.pushed scopeName) isStruct attributes.kind ⟨[], [], []⟩
    define address (.structUnion attributes.kind (attributes.fullName scopeName)
      (some ⟨(bits + 7) / 8, made.baseClasses, made.methods, made.members⟩))

def userDefinedType (scopeName : String)
    (members : String → Bool → StructUnion.Kind → Members → Meaning Members)
    (address : Address) (decl : Element) : Meaning Bool :=
  if decl.name = "typedef-decl" then do
    single address (.typedef scopeName decl)
    return true
  else if decl.name = "class-decl" then do
    structUnion scopeName members address true decl
    return true
  else if decl.name = "union-decl" then do
    structUnion scopeName members address false decl
    return true
  else if decl.name = "enum-decl" then do
    single address (.enum scopeName decl)
    return true
  else return false

def type (owner : Owner) (scopeName : String)
    (members : String → Bool → StructUnion.Kind → Members → Meaning Members)
    (address : Address) (element : Element) : Meaning Unit :=
  if element.name = "function-type" then single address (.functionType element)
  else if element.name = "pointer-type-def" then single address (.pointer true element)
  else if element.name = "reference-type-def" then single address (.pointer false element)
  else if element.name = "qualified-type-def" then qualified owner address element
  else if element.name = "array-type-def" then array owner address element
  else if element.name = "type-decl" then single address (.typeDecl scopeName element)
  else do
    let known ← userDefinedType scopeName members address element
    check known ("bad abi-instr type child element '" ++ element.name ++ "'")

def unlessIn (address : Address) (definition : Meaning Unit) : Meaning Unit := fun before =>
  if address ∈ before.addresses then .ok ((), {}) else definition before

/-- A definition that is passed over when there has been one of the type. -/
def unlessDefined (typeId : String) (definition : Address → Meaning Unit) : Meaning Unit := do
  mentioning (.ok ((), [.type typeId]))
  unlessIn (.type typeId) (definition (.type typeId))

def memberDecl (scopeName : String)
    (members : String → Bool → StructUnion.Kind → Members → Meaning Members)
    (decl : Element) : Meaning Unit := do
  let typeId ← ofExcept (getAttributeOrDie decl "id")
  unlessDefined typeId fun address => do
    let known ← userDefinedType scopeName members address decl
    check known ("unrecognised member-type child element '" ++ decl.name ++ "'")

section

variable (owner : Owner)

mutual

def members (element : Element) (scopeName : String) (isStruct : Bool)
    (kind : StructUnion.Kind) (made : Members) : Meaning Members :=
  match element with
  | .mk _ _ elements => children elements scopeName isStruct kind made

def children (elements : List Element) (scopeName : String) (isStruct : Bool)
    (kind : StructUnion.Kind) (made : Members) : Meaning Members :=
  match elements with
  | [] => return made
  | element :: rest => do
    let made ← child element scopeName isStruct kind made
    children rest scopeName isStruct kind made

def child (element : Element) (scopeName : String) (isStruct : Bool)
    (kind : StructUnion.Kind) (made : Members) : Meaning Members :=
  match element with
  | .mk name attributes elements => do
    if name = "data-member" then
      let member ← dataMember owner scopeName isStruct (.mk name attributes elements)
      return { made with members := made.members ++ member.toList }
    else if name = "member-type" then
      memberType elements scopeName
      return made
    else if name = "base-class" then
      let base ← baseClass owner (.mk name attributes elements)
      return { made with baseClasses := made.baseClasses ++ [base] }
    else if name = "member-function" then
      let method ← memberFunction owner scopeName (.mk name attributes elements)
      return { made with methods := made.methods ++ [method] }
    else die ("unrecognised " ++ print kind ++ "-decl child element '" ++ name ++ "'")

def memberType (elements : List Element) (scopeName : String) : Meaning Unit :=
  match elements with
  | [decl] => memberDecl scopeName (members decl) decl
  | _ => die "member-type with not exactly one child element"

end

end

def nonType (corpus : Nat) (scopeName : String) (inner : String → Meaning Unit)
    (element : Element) : Meaning Unit :=
  if element.name = "var-decl" then variableDecl scopeName element
  else if element.name = "function-decl" then functionDecl corpus scopeName element
  else if element.name = "namespace-decl" then do
    let name ← ofExcept (getAttributeOrDie element "name")
    inner (scopeName ++ name ++ "::")
  else die ("bad abi-instr non-type child element '" ++ element.name ++ "'")

section

variable (corpus : Nat)

mutual

def scope (elements : List Element) (scopeName : String) : Meaning Unit :=
  match elements with
  | [] => return ()
  | element :: rest => do
    member element scopeName
    scope rest scopeName

/-- An element of a scope. What comes with a type belongs to it. -/
def member (element : Element) (scopeName : String) : Meaning Unit :=
  match element with
  | .mk name attributes elements =>
    match getAttribute (.mk name attributes elements) "id" with
    | some typeId =>
      unlessDefined typeId fun address =>
        type (.type typeId) scopeName (members (.type typeId) (.mk name attributes elements)) address
          (.mk name attributes elements)
    | none => nonType corpus scopeName (scope elements) (.mk name attributes elements)

end

end

end Meaning

/-- The symbols and the aliases of a corpus. -/
structure Tables where
  infos : List (String × SymbolInfo) := []
  aliases : List (String × String) := []

namespace Tables

def append (first second : Tables) : Tables where
  infos := first.infos ++ second.infos
  aliases := first.aliases ++ second.aliases

instance : Append Tables := ⟨append⟩

/-- No symbol and no alias is there twice. -/
structure Distinct (tables : Tables) : Prop where
  infos : (tables.infos.map (·.1)).Nodup
  aliases : (tables.aliases.map (·.1)).Nodup

instance (tables : Tables) : Decidable tables.Distinct :=
  decidable_of_iff ((tables.infos.map (·.1)).Nodup ∧ (tables.aliases.map (·.1)).Nodup)
    ⟨fun both => ⟨both.1, both.2⟩, fun distinct => ⟨distinct.infos, distinct.aliases⟩⟩

/-- No main symbol is an alias. -/
def MainsPlain (tables : Tables) : Prop :=
  ∀ entry ∈ tables.aliases, entry.2 ∉ tables.aliases.map (·.1)

instance (tables : Tables) : Decidable tables.MainsPlain :=
  inferInstanceAs (Decidable (∀ entry ∈ tables.aliases, entry.2 ∉ tables.aliases.map (·.1)))

/-- The symbol id of an alias or a main symbol that a declaration is for. -/
def main (tables : Tables) (symbolId : String) : String :=
  (tables.aliases.lookup symbolId).getD symbolId

end Tables

def readTable (symbol : Element) : Except Error Tables := do
  checkElementName "elf-symbol" symbol
  let (elfSymbolId, info, aliases) ← readSymbol symbol
  return ⟨[(elfSymbolId, info)], aliases.map fun item => (item, elfSymbolId)⟩

def readTables : List Element → Except Error Tables
  | [] => return {}
  | symbol :: rest => do
    let first ← readTable symbol
    let later ← readTables rest
    return first ++ later

namespace Meaning

variable (corpusNumber : Nat)

def corpusChild (element : Element) : Meaning Tables :=
  if element.name = "elf-function-symbols" ∨ element.name = "elf-variable-symbols" then
    ofExcept (readTables element.children)
  else if element.name = "elf-needed" then return {}
  else if element.name = "abi-instr" then do
    scope corpusNumber element.children ""
    return {}
  else die ("unrecognised abi-corpus child element '" ++ element.name ++ "'")

def corpusChildren : List Element → Meaning Tables
  | [] => return {}
  | element :: rest => do
    let first ← corpusChild corpusNumber element
    let later ← corpusChildren rest
    return first ++ later

/-- What has been declared for an ELF symbol id. -/
def declared (symbolId : String) : Meaning (Option (Address × String)) := fun before =>
  .ok (before.declarations.lookup symbolId, {})

def symbol (tables : Tables) (symbolId : String) (info : SymbolInfo) : Meaning Address := do
  let declaration ← declared (tables.main symbolId)
  let node ← ofExcept (readElfSymbol info none (declaration.map (·.2)))
  part .symbol (.symbol corpusNumber symbolId) (.elfSymbol node (declaration.map (·.1)))

def symbolsOf (tables : Tables) :
    List String → List (String × Address) → Meaning (List (String × Address))
  | [], symbols => return symbols
  | id :: ids, symbols =>
    match tables.infos.lookup id with
    | some info => do
      let address ← symbol corpusNumber tables id info
      symbolsOf tables ids (Ordered.insert symbols id address)
    | none => symbolsOf tables ids symbols

/-- The declarations of other corpora do not matter. -/
def apart {β : Type} (reading : Meaning β) : Meaning β := fun before =>
  match reading { before with declarations := [] } with
  | .ok (value, more) => .ok (value, { more with declarations := [] })
  | .error reason => .error reason

def corpus (iteration : Iteration) (element : Element) : Meaning (List (String × Address)) :=
  apart do
    let tables ← corpusChildren corpusNumber element.children
    check (decide tables.Distinct) "multiple symbols or aliases"
    check (decide tables.MainsPlain) "found main symbol and alias"
    symbolsOf corpusNumber tables (iteration.visit (tables.infos.map (·.1))) []

end Meaning

def SymbolTable.join (path : String) :
    List (String × Address) → SymbolTable → Except Error SymbolTable
  | [], table => return table
  | (name, address) :: symbols, table =>
    if ⟨path, name⟩ ∈ table.keys then die "found duplicate symbol"
    else join path symbols (table.insert ⟨path, name⟩ address)

namespace Meaning

variable (iteration : Iteration)

def corpora : Nat → List Element → SymbolTable → Meaning SymbolTable
  | _, [], table => return table
  | corpusNumber, child :: rest, table => do
    ofExcept (checkElementName "abi-corpus" child)
    let path ← ofExcept (readAttributeOrDie parseString child "path")
    let symbols ← corpus corpusNumber iteration child
    let table ← ofExcept (table.join path symbols)
    corpora (corpusNumber + 1) rest table

def document (root : Element) : Meaning Address :=
  if root.name = "abi-corpus-group" then do
    let table ← corpora iteration 0 root.children .empty
    part .root .document (.symbols table)
  else if root.name = "abi-corpus" then do
    let symbols ← corpus 0 iteration root
    let table ← ofExcept (SymbolTable.join "" symbols .empty)
    part .root .document (.symbols table)
  else die ("unrecognised root element '" ++ root.name ++ "'")

end Meaning

/-- What a document says, and the address of its root. -/
def read (iteration : Iteration) (root : Element) : Except Error (Address × Contents) :=
  Meaning.document iteration root {}

end Stg.AbiXml
