import Stg.AbiXml.Attributes
import Stg.Build
import Stg.Naming
import Stg.Lib.Entries
import Stg.Lib.Getline

set_option autoImplicit false

/- The reader of ABI XML. What it prints when it is verbose is left out. -/
namespace Stg

/-- A key that has a path is streamed before the path. -/
def SymbolKey.stream : Nat → SymbolKey → Except Error String
  | 0, _ => .error .outOfFuel
  | fuel + 1, key =>
    if key.path ≠ "" then do
      let text ← SymbolKey.stream fuel key
      return text ++ ":" ++ key.name
    else return key.name

namespace AbiXml

open Emplace (emplace)

structure SymbolInfo where
  name : String
  versionInfo : Option ElfSymbol.VersionInfo
  node : Element

/-- The graph with the members of `Typing` and of `Corpus`. The full name of the
current scope is an argument of the functions that need it. -/
structure Corpus where
  graph : Graph
  variadic : Option Id := none
  typeIds : AList (fun _ : String => Id) := ∅
  symbolInfoMap : AList (fun _ : String => SymbolInfo) := ∅
  aliasToMain : AList (fun _ : String => String) := ∅
  symbolIdAndFullName : AList (fun _ : String => Id × String) := ∅

abbrev Reading := EStateM Error Corpus

/-- The order in which an unordered map is gone through, given its keys in the order
of their insertion. -/
structure Iteration where
  visit : List String → List String
  perm : ∀ keys, (visit keys).Perm keys

/- Typing. -/

instance : Builder Corpus where
  graph s := s.graph
  withGraph graph s := { s with graph }

def set (id : Id) (node : Node) : Reading Unit := do
  let graph ← ofExcept ((← get).graph.set id node)
  modify fun s => { s with graph }

def getNode (typeId : String) : Reading Id := do
  match (← get).typeIds.lookup typeId with
  | some id => return id
  | none =>
    let (id, graph) := (← get).graph.allocate
    modify fun s => { s with graph, typeIds := emplace s.typeIds typeId id }
    return id

def getEdge (element : Element) : Reading Id := do
  let typeId ← ofExcept (getAttributeOrDie element "type-id")
  getNode typeId

def getVariadic : Reading Id :=
  getShared (·.variadic) (fun id s => { s with variadic := some id }) .variadic

/- Function types. -/

/-- One of the child elements of a function: the parameters and the return type so far
become the new ones. -/
def functionChild (function child : Element) (parameters : List Parameter)
    (returnType : Option Id) : Reading (List Parameter × Option Id) := do
  check returnType.isNone "unexpected element after return-type"
  if child.name = "parameter" then
    let isVariadic ← ofExcept (readAttribute parseBool child "is-variadic" false)
    if isVariadic then
      let type ← getVariadic
      return (parameters ++ [⟨"", type⟩], returnType)
    else
      let type ← getEdge child
      return (parameters ++ [⟨(getAttribute child "name").getD "", type⟩], returnType)
  else if child.name = "return" then
    let type ← getEdge child
    return (parameters, some type)
  else die ("unrecognised " ++ function.name ++ " child element '" ++ child.name ++ "'")

def functionChildren (function : Element) :
    List Element → List Parameter → Option Id → Reading (List Parameter × Option Id)
  | [], parameters, returnType => return (parameters, returnType)
  | child :: rest, parameters, returnType => do
    let (parameters, returnType) ← functionChild function child parameters returnType
    functionChildren function rest parameters returnType

def makeFunctionType (function : Element) : Reading Node := do
  let (parameters, returnType) ← functionChildren function function.children [] none
  match returnType with
  | some returnType => return .function ⟨returnType, parameters⟩
  | none => die "missing return-type"

/- ELF symbols. -/

/-- The symbol id, the information and the aliases of a symbol. -/
def readSymbol (symbol : Element) : Except Error (String × SymbolInfo × List String) := do
  let name ← getAttributeOrDie symbol "name"
  let version ← readAttribute parseString symbol "version" ""
  let isDefaultVersion ← readAttribute parseBool symbol "is-default-version" false
  let aliases := ((getAttribute symbol "alias").map fun items => Getline.getlines ',' [] items.toList).getD []
  if version = "" then return (name, ⟨name, none, symbol⟩, aliases)
  else
    let versionInfo : ElfSymbol.VersionInfo := ⟨isDefaultVersion, version⟩
    return (name ++ ElfSymbol.versionInfoToString versionInfo, ⟨name, some versionInfo, symbol⟩, aliases)

def processAliases (elfSymbolId : String) : List String → Reading Unit
  | [] => return ()
  | item :: items => do
    let aliasToMain := (← get).aliasToMain
    check (decide (item ∉ aliasToMain)) ("multiple aliases with id " ++ elfSymbolId)
    modify fun s => { s with aliasToMain := emplace aliasToMain item elfSymbolId }
    processAliases elfSymbolId items

def processSymbol (symbol : Element) : Reading Unit := do
  let (elfSymbolId, info, aliases) ← ofExcept (readSymbol symbol)
  let symbolInfoMap := (← get).symbolInfoMap
  check (decide (elfSymbolId ∉ symbolInfoMap)) ("multiple symbols with id " ++ elfSymbolId)
  modify fun s => { s with symbolInfoMap := emplace symbolInfoMap elfSymbolId info }
  processAliases elfSymbolId aliases

def processSymbols : List Element → Reading Unit
  | [] => return ()
  | element :: rest => do
    ofExcept (checkElementName "elf-symbol" element)
    processSymbol element
    processSymbols rest

/- Declarations and types without inner definitions. -/

def linkSymbol (symbolId : Option String) (type : Id) (name : String) : Reading Unit := do
  match symbolId with
  | some symbolId =>
    let symbolIdAndFullName := (← get).symbolIdAndFullName
    modify fun s => { s with
      symbolIdAndFullName := emplace symbolIdAndFullName symbolId (type, name) }
    check (decide (((symbolIdAndFullName.lookup symbolId).map (·.1)).getD type = type))
      ("conflicting types for '" ++ symbolId ++ "'")
  | none => return ()

def processDecl (scopeName : String) (isVariable : Bool) (decl : Element) : Reading Id := do
  let name ← ofExcept (getAttributeOrDie decl "name")
  let symbolId := getAttribute decl "elf-symbol-id"
  if isVariable then
    let type ← getEdge decl
    linkSymbol symbolId type (scopeName ++ name)
    return type
  else
    let function ← makeFunctionType decl
    let type ← add function
    linkSymbol symbolId type (scopeName ++ name)
    return type

def processFunctionType (id : Id) (function : Element) : Reading Unit := do
  let type ← makeFunctionType function
  set id type

def processTypedef (scopeName : String) (id : Id) (typeDefinition : Element) : Reading Unit := do
  let name ← ofExcept (getAttributeOrDie typeDefinition "name")
  let type ← getEdge typeDefinition
  set id (.typedef ⟨scopeName ++ name, type⟩)

def readPointerKind (isPointer : Bool) (pointer : Element) :
    Except Error PointerReference.Kind :=
  if isPointer then .ok .pointer else readAttributeOrDie parseReferenceKind pointer "kind"

def processPointer (id : Id) (isPointer : Bool) (pointer : Element) : Reading Unit := do
  let type ← getEdge pointer
  let kind ← ofExcept (readPointerKind isPointer pointer)
  set id (.pointerReference ⟨kind, type⟩)

/-- All the nodes but the last are added as new ones. The last is set into place. -/
def setChain (id : Id) (node : Id → Node) : List (Id → Node) → Id → Reading Unit
  | [], type => set id (node type)
  | next :: nodes, type => do
    let type ← add (node type)
    setChain id next nodes type

/-- The qualifiers in reverse order. -/
def readQualifiers (qualified : Element) : Except Error (List Qualifier) := do
  let restrict ← readAttribute parseBool qualified "restrict" false
  let volatile ← readAttribute parseBool qualified "volatile" false
  let const ← readAttribute parseBool qualified "const" false
  return (if restrict then [.restrict] else []) ++ (if volatile then [.volatile] else []) ++
    (if const then [.const] else [])

def processQualified (id : Id) (qualified : Element) : Reading Unit := do
  let qualifiers ← ofExcept (readQualifiers qualified)
  match qualifiers with
  | [] => die "qualified-type-def has no qualifiers"
  | qualifier :: qualifiers =>
    let type ← getEdge qualified
    let qualify (qualifier : Qualifier) (type : Id) : Node := .qualified ⟨qualifier, type⟩
    setChain id (qualify qualifier) (qualifiers.map qualify) type

def readDimensions : List Element → Except Error (List UInt64)
  | [] => return []
  | child :: rest => do
    checkElementName "subrange" child
    let length ← readAttributeOrDie parseLength child "length"
    let dimensions ← readDimensions rest
    return length :: dimensions

def processArray (id : Id) (array : Element) : Reading Unit := do
  let dimensions ← ofExcept (readDimensions array.children)
  match dimensions.reverse with
  | [] => die "array-type-def element has no children"
  | size :: sizes =>
    let type ← getEdge array
    let arrayOf (size : UInt64) (type : Id) : Node := .array ⟨size, type⟩
    setChain id (arrayOf size) (sizes.map arrayOf) type

/-- Whether the text stands somewhere in the name. -/
def contains (name text : String) : Bool := name.toList.tails.any fun rest => text.toList.isPrefixOf rest

def integerEncoding (name : String) : Integer.Encoding :=
  if name = "bool" then .boolean
  else if contains name "char" then
    if contains name "unsigned" then .unsignedCharacter else .signedCharacter
  else if contains name "unsigned" then .unsignedInteger
  else .signedInteger

/-- The numbers of bits and bytes are converted to the type of the fields. -/
def readTypeDecl (scopeName : String) (typeDecl : Element) : Except Error Node := do
  let name ← getAttributeOrDie typeDecl "name"
  let bits ← readAttribute parseUInt64 typeDecl "size-in-bits" 0
  let bytes := (bits + 7) / 8
  let name := scopeName ++ name
  if name = "void" then return .void
  else return .integer ⟨name, integerEncoding name, bits.toUInt32, bytes.toUInt32⟩

def processTypeDecl (scopeName : String) (id : Id) (typeDecl : Element) : Reading Unit := do
  let type ← ofExcept (readTypeDecl scopeName typeDecl)
  set id type

def readEnumerators : List Element → Except Error (List (String × Int64))
  | [] => return []
  | enumerator :: rest => do
    checkElementName "enumerator" enumerator
    let name ← getAttributeOrDie enumerator "name"
    let value ← readAttributeOrDie parseInt64 enumerator "value"
    let enumerators ← readEnumerators rest
    return (name, value) :: enumerators

/-- Whether an enumeration is a forward declaration, and its full name. -/
def readEnum (scopeName : String) (enumeration : Element) : Except Error (Bool × String) := do
  let forward ← readAttribute parseBool enumeration "is-declaration-only" false
  let isAnonymous ← readAttribute parseBool enumeration "is-anonymous" false
  if isAnonymous then return (forward, "")
  else
    let name ← getAttributeOrDie enumeration "name"
    return (forward, scopeName ++ name)

def processEnum (scopeName : String) (id : Id) (enumeration : Element) : Reading Unit := do
  let (forward, name) ← ofExcept (readEnum scopeName enumeration)
  if forward then set id (.enumeration ⟨name, none⟩)
  else
    match enumeration.children with
    | [] => die "enum-decl has no child elements"
    | underlying :: rest =>
      ofExcept (checkElementName "underlying-type" underlying)
      -- the underlying type gets an id, which is not used
      let _ ← getEdge underlying
      let enumerators ← ofExcept (readEnumerators rest)
      set id (.enumeration ⟨name, some ⟨0, enumerators⟩⟩)

def processBaseClass (baseClass : Element) : Reading Id := do
  let type ← getEdge baseClass
  let offset ← ofExcept (readAttributeOrDie parseUInt64 baseClass "layout-offset-in-bits")
  let isVirtual ← ofExcept (readAttribute parseBool baseClass "is-virtual" false)
  add (.baseClass ⟨type, offset, if isVirtual then .virtual else .nonVirtual⟩)

def readMemberOffset (isStruct : Bool) (dataMember : Element) : Except Error UInt64 :=
  if isStruct then readAttributeOrDie parseUInt64 dataMember "layout-offset-in-bits" else .ok 0

def processDataMember (scopeName : String) (isStruct : Bool) (dataMember : Element) :
    Reading (Option Id) := do
  let decl ← ofExcept (getOnlyChild "data-member" dataMember)
  ofExcept (checkElementName "var-decl" decl)
  let isStatic ← ofExcept (readAttribute parseBool dataMember "static" false)
  if isStatic then
    let _ ← processDecl scopeName true decl
    return none
  else
    let offset ← ofExcept (readMemberOffset isStruct dataMember)
    let name ← ofExcept (getAttributeOrDie decl "name")
    let type ← getEdge decl
    let id ← add (.member ⟨name, type, offset, 0⟩)
    return some id

/-- The kind of a method and its offset in the virtual table. -/
def readMethodKind (method : Element) : Except Error (Method.Kind × Option UInt64) := do
  let vtableOffset ← readAttribute? parseUInt64 method "vtable-offset"
  match vtableOffset with
  | some _ => return (.virtual, vtableOffset)
  | none =>
    let isStatic ← readAttribute parseBool method "static" false
    return (if isStatic then .static else .nonVirtual, vtableOffset)

def processMemberFunction (scopeName : String) (method : Element) : Reading Id := do
  let decl ← ofExcept (getOnlyChild "member-function" method)
  ofExcept (checkElementName "function-decl" decl)
  let mangledName ← ofExcept (getAttributeOrDie decl "mangled-name")
  let name ← ofExcept (getAttributeOrDie decl "name")
  let type ← processDecl scopeName false decl
  let (kind, vtableOffset) ← ofExcept (readMethodKind method)
  add (.method ⟨mangledName, name, kind, vtableOffset, type⟩)

/- Structs and unions. -/

/-- The nodes of a struct or union that have been made so far. -/
structure Members where
  baseClasses : List Id
  methods : List Id
  members : List Id

structure StructUnionAttributes where
  forward : Bool
  kind : StructUnion.Kind
  name : String

def readStructUnionKind (isStruct : Bool) (structUnion : Element) :
    Except Error StructUnion.Kind :=
  if isStruct then do
    let struct ← readAttribute parseBool structUnion "is-struct" false
    return if struct then .struct else .class_
  else return .union

def readStructUnion (isStruct : Bool) (structUnion : Element) :
    Except Error StructUnionAttributes := do
  let isDeclarationOnly ← readAttribute parseBool structUnion "is-declaration-only" false
  let kind ← readStructUnionKind isStruct structUnion
  let isAnonymous ← readAttribute parseBool structUnion "is-anonymous" false
  let forward := isDeclarationOnly && structUnion.children.isEmpty
  if isAnonymous then return ⟨forward, kind, ""⟩
  else
    let name ← getAttributeOrDie structUnion "name"
    return ⟨forward, kind, name⟩

def StructUnionAttributes.fullName (self : StructUnionAttributes) (scopeName : String) : String :=
  if self.name = "" then "" else scopeName ++ self.name

/-- The name that is pushed for the scope of the members. -/
def StructUnionAttributes.pushed (self : StructUnionAttributes) (scopeName : String) : String :=
  scopeName ++ (if self.name = "" then "<unnamed " ++ print self.kind ++ ">" else self.name) ++ "::"

/-- `processMembers` goes through the child elements. -/
def processStructUnion (scopeName : String)
    (processMembers : String → Bool → StructUnion.Kind → Members → Reading Members)
    (id : Id) (isStruct : Bool) (structUnion : Element) : Reading Unit := do
  let attributes ← ofExcept (readStructUnion isStruct structUnion)
  if attributes.forward then
    set id (.structUnion ⟨attributes.kind, attributes.fullName scopeName, none⟩)
  else
    let bits ← ofExcept (readAttribute parseUInt64 structUnion "size-in-bits" 0)
    let made ← processMembers (attributes.pushed scopeName) isStruct attributes.kind ⟨[], [], []⟩
    set id (.structUnion ⟨attributes.kind, attributes.fullName scopeName,
      some ⟨(bits + 7) / 8, made.baseClasses, made.methods, made.members⟩⟩)

/-- Whether the element is one of the definitions that may also be in a class. -/
def processUserDefinedType (scopeName : String)
    (processMembers : String → Bool → StructUnion.Kind → Members → Reading Members)
    (id : Id) (decl : Element) : Reading Bool :=
  if decl.name = "typedef-decl" then do
    processTypedef scopeName id decl
    return true
  else if decl.name = "class-decl" then do
    processStructUnion scopeName processMembers id true decl
    return true
  else if decl.name = "union-decl" then do
    processStructUnion scopeName processMembers id false decl
    return true
  else if decl.name = "enum-decl" then do
    processEnum scopeName id decl
    return true
  else return false

/-- A definition of a type, which is not a duplicate. -/
def processType (scopeName : String)
    (processMembers : String → Bool → StructUnion.Kind → Members → Reading Members)
    (id : Id) (element : Element) : Reading Unit :=
  if element.name = "function-type" then processFunctionType id element
  else if element.name = "pointer-type-def" then processPointer id true element
  else if element.name = "reference-type-def" then processPointer id false element
  else if element.name = "qualified-type-def" then processQualified id element
  else if element.name = "array-type-def" then processArray id element
  else if element.name = "type-decl" then processTypeDecl scopeName id element
  else do
    let known ← processUserDefinedType scopeName processMembers id element
    check known ("bad abi-instr type child element '" ++ element.name ++ "'")

/-- `define` is applied to the id of the type unless the type has been defined. -/
def unlessDefined (typeId : String) (define : Id → Reading Unit) : Reading Unit := do
  let id ← getNode typeId
  let defined ← ofExcept ((← get).graph.isSet id)
  if defined then return () else define id

/-- The definition in a member type. -/
def processMemberDecl (scopeName : String)
    (processMembers : String → Bool → StructUnion.Kind → Members → Reading Members)
    (decl : Element) : Reading Unit := do
  let typeId ← ofExcept (getAttributeOrDie decl "id")
  unlessDefined typeId fun id => do
    let known ← processUserDefinedType scopeName processMembers id decl
    check known ("unrecognised member-type child element '" ++ decl.name ++ "'")

mutual

/-- The loop over the child elements of a struct or union. -/
def processMembers (element : Element) (scopeName : String) (isStruct : Bool)
    (kind : StructUnion.Kind) (made : Members) : Reading Members :=
  match element with
  | .mk _ _ children => processChildren children scopeName isStruct kind made

def processChildren (children : List Element) (scopeName : String) (isStruct : Bool)
    (kind : StructUnion.Kind) (made : Members) : Reading Members :=
  match children with
  | [] => return made
  | child :: rest => do
    let made ← processChild child scopeName isStruct kind made
    processChildren rest scopeName isStruct kind made

def processChild (child : Element) (scopeName : String) (isStruct : Bool)
    (kind : StructUnion.Kind) (made : Members) : Reading Members :=
  match child with
  | .mk name attributes children => do
    if name = "data-member" then
      let member ← processDataMember scopeName isStruct (.mk name attributes children)
      return { made with members := made.members ++ member.toList }
    else if name = "member-type" then
      processMemberType children scopeName
      return made
    else if name = "base-class" then
      let baseClass ← processBaseClass (.mk name attributes children)
      return { made with baseClasses := made.baseClasses ++ [baseClass] }
    else if name = "member-function" then
      let method ← processMemberFunction scopeName (.mk name attributes children)
      return { made with methods := made.methods ++ [method] }
    else die ("unrecognised " ++ print kind ++ "-decl child element '" ++ name ++ "'")

/-- The child elements of a member type. -/
def processMemberType (children : List Element) (scopeName : String) : Reading Unit :=
  match children with
  | [decl] => processMemberDecl scopeName (processMembers decl) decl
  | _ => die "member-type with not exactly one child element"

end

/- Scopes. -/

/-- An element without an id, which is not the definition of a type. `processInner`
goes through its child elements. -/
def processNonType (scopeName : String) (processInner : String → Reading Unit)
    (element : Element) : Reading Unit :=
  if element.name = "var-decl" then do
    let _ ← processDecl scopeName true element
  else if element.name = "function-decl" then do
    let _ ← processDecl scopeName false element
  else if element.name = "namespace-decl" then do
    let name ← ofExcept (getAttributeOrDie element "name")
    processInner (scopeName ++ name ++ "::")
  else die ("bad abi-instr non-type child element '" ++ element.name ++ "'")

mutual

def processScope (elements : List Element) (scopeName : String) : Reading Unit :=
  match elements with
  | [] => return ()
  | element :: rest => do
    processElement element scopeName
    processScope rest scopeName

/-- An element of a scope. -/
def processElement (element : Element) (scopeName : String) : Reading Unit :=
  match element with
  | .mk name attributes children =>
    match getAttribute (.mk name attributes children) "id" with
    | some typeId =>
      unlessDefined typeId fun id =>
        processType scopeName (processMembers (.mk name attributes children)) id
          (.mk name attributes children)
    | none => processNonType scopeName (processScope children) (.mk name attributes children)

end

/- A corpus and its table of symbols. -/

def readElfSymbol (info : SymbolInfo) (typeId : Option Id) (name : Option String) :
    Except Error ElfSymbol := do
  let isDefined ← readAttributeOrDie parseBool info.node "is-defined"
  let crc ← readAttribute? parseCRC info.node "crc"
  let type ← readAttributeOrDie parseSymbolType info.node "type"
  let binding ← readAttributeOrDie parseBinding info.node "binding"
  let visibility ← readAttributeOrDie parseVisibility info.node "visibility"
  return ⟨info.name, info.versionInfo, isDefined, type, binding, visibility, crc, typeId, name⟩

def buildSymbol (info : SymbolInfo) (typeId : Option Id) (name : Option String) : Reading Id := do
  let symbol ← ofExcept (readElfSymbol info typeId name)
  add (.elfSymbol symbol)

def checkAliases (aliasToMain : AList fun _ : String => String) : List String → Except Error Unit
  | [] => return ()
  | alias_ :: aliases => do
    let main := (aliasToMain.lookup alias_).getD ""
    check (decide (main ∉ aliasToMain)) ("found main symbol and alias with id " ++ main)
    checkAliases aliasToMain aliases

/-- The symbols in increasing order of their ids. -/
def buildSymbolsOf : List String → List (String × Id) → Reading (List (String × Id))
  | [], symbols => return symbols
  | id :: ids, symbols => do
    let s ← get
    match s.symbolInfoMap.lookup id with
    | some info =>
      let typeIdAndName := s.symbolIdAndFullName.lookup ((s.aliasToMain.lookup id).getD id)
      let symbol ← buildSymbol info (typeIdAndName.map (·.1)) (typeIdAndName.map (·.2))
      buildSymbolsOf ids (Ordered.insert symbols id symbol)
    | none => buildSymbolsOf ids symbols

def buildSymbols (iteration : Iteration) : Reading (List (String × Id)) := do
  let aliasToMain := (← get).aliasToMain
  ofExcept (checkAliases aliasToMain (iteration.visit aliasToMain.keys.reverse))
  buildSymbolsOf (iteration.visit (← get).symbolInfoMap.keys.reverse) []

def processCorpusChild (element : Element) : Reading Unit :=
  if element.name = "elf-function-symbols" ∨ element.name = "elf-variable-symbols" then
    processSymbols element.children
  else if element.name = "elf-needed" then return ()
  else if element.name = "abi-instr" then processScope element.children ""
  else die ("unrecognised abi-corpus child element '" ++ element.name ++ "'")

def processCorpusChildren : List Element → Reading Unit
  | [] => return ()
  | element :: rest => do
    processCorpusChild element
    processCorpusChildren rest

/-- A corpus starts with maps of its own. -/
def processCorpus (iteration : Iteration) (corpus : Element) : Reading (List (String × Id)) := do
  modify fun s => { s with symbolInfoMap := ∅, aliasToMain := ∅, symbolIdAndFullName := ∅ }
  processCorpusChildren corpus.children
  buildSymbols iteration

/- The root. -/

/-- The symbols of a corpus join those of the corpora before it. -/
def merge (fuel : Nat) (path : String) :
    List (String × Id) → Symbols → Except Error Symbols
  | [], symbols => return symbols
  | (name, id) :: corpusSymbols, symbols =>
    let key : SymbolKey := ⟨path, name⟩
    if key ∈ symbols.keys then do
      let text ← key.stream fuel
      die ("found duplicate symbol '" ++ text ++ "'")
    else merge fuel path corpusSymbols (symbols.insert key id)

def processCorpora (iteration : Iteration) (fuel : Nat) : List Element → Symbols → Reading Symbols
  | [], symbols => return symbols
  | child :: rest, symbols => do
    ofExcept (checkElementName "abi-corpus" child)
    let path ← ofExcept (readAttributeOrDie parseString child "path")
    let corpusSymbols ← processCorpus iteration child
    let symbols ← ofExcept (merge fuel path corpusSymbols symbols)
    processCorpora iteration fuel rest symbols

def processRoot (iteration : Iteration) (fuel : Nat) (root : Element) : Reading Id := do
  if root.name = "abi-corpus-group" then
    let symbols ← processCorpora iteration fuel root.children .empty
    add (.symbols symbols)
  else if root.name = "abi-corpus" then
    let corpusSymbols ← processCorpus iteration root
    let symbols ← ofExcept (merge fuel "" corpusSymbols .empty)
    add (.symbols symbols)
  else die ("unrecognised root element '" ++ root.name ++ "'")

end AbiXml

end Stg
