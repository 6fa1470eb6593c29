import Stg.Build
import Stg.Lib.Entries

set_option autoImplicit false

/- The reader of BTF. Pointers into the input are offsets into it; every byte that
is read through one is fetched by `fetch`, which keeps a record of it. -/
namespace Stg.Btf

open Emplace (emplace)

/-- What a read is made through: the header, `Pull` or `GetName`. -/
inductive Region where
  | header
  | types
  | strings
  deriving DecidableEq, Repr

structure Access where
  region : Region
  offset : Nat
  size : Nat
  deriving DecidableEq, Repr

structure MemoryRange where
  start : Nat
  limit : Nat
  deriving DecidableEq, Repr

structure Structs where
  graph : Graph
  void : Option Id := none
  variadic : Option Id := none
  btfTypeIds : AList (fun _ : UInt32 => Id) := ∅
  btfSymbols : Symbols := .empty
  reads : List Access := []

/-- A failure keeps the state, and so the reads made before it. -/
abbrev Reading := EStateM Error Structs

/- The input. -/

/-- As many of the bytes as there are. -/
def bytesAt (data : List UInt8) (offset size : Nat) : List UInt8 := (data.drop offset).take size

def littleEndian : List UInt8 → Nat
  | [] => 0
  | byte :: bytes => byte.toNat + 256 * littleEndian bytes

def u32At (data : List UInt8) (offset : Nat) : UInt32 :=
  (littleEndian (bytesAt data offset 4)).toUInt32

/-- A string of bytes, each as the character of its code. -/
def ofBytes (bytes : List UInt8) : String :=
  String.ofList (bytes.map fun byte => Char.ofNat byte.toNat)

section

variable (data : List UInt8)

/-- Every read is logged; one outside the input is undefined behaviour. -/
def fetch (region : Region) (offset size : Nat) : Reading (List UInt8) := do
  modify fun s => { s with reads := ⟨region, offset, size⟩ :: s.reads }
  if offset + size ≤ data.length then return bytesAt data offset size
  else throw .undefined

def u32 (region : Region) (offset : Nat) : Reading UInt32 := do
  let bytes ← fetch data region offset 4
  return (littleEndian bytes).toUInt32

end

/-- `MemoryRange::Empty`, which compares for equality only. -/
def MemoryRange.empty (memory : MemoryRange) : Bool := memory.start == memory.limit

/-- The start of `count` items of the given size and what follows them. -/
def MemoryRange.pull (memory : MemoryRange) (size count : Nat) : Reading (Nat × MemoryRange) := do
  let saved := memory.start
  let memory := { memory with start := memory.start + size * count }
  check (decide (memory.start ≤ memory.limit)) "type data extends past end of type section"
  return (saved, memory)

/- The layouts of the records. The fields of a structure are read together. -/

/-- The kinds of records, as they are numbered. -/
inductive Kind where
  | int
  | ptr
  | array
  | struct
  | union
  | enum
  | fwd
  | typedef
  | volatile
  | const
  | restrict
  | func
  | funcProto
  | var
  | datasec
  deriving DecidableEq, Repr

def Kind.ofNumber? : Nat → Option Kind
  | 1 => some .int
  | 2 => some .ptr
  | 3 => some .array
  | 4 => some .struct
  | 5 => some .union
  | 6 => some .enum
  | 7 => some .fwd
  | 8 => some .typedef
  | 9 => some .volatile
  | 10 => some .const
  | 11 => some .restrict
  | 12 => some .func
  | 13 => some .funcProto
  | 14 => some .var
  | 15 => some .datasec
  | _ => none

/-- `NR_BTF_KINDS` is above the last kind that has a record here. -/
def nrBtfKinds : Nat := 20

structure BtfType where
  nameOff : UInt32
  info : UInt32
  /-- A size or a type index, by the kind. -/
  sizeOrType : UInt32
  deriving DecidableEq, Repr

/-- Bits of `info`: the kind, the number of items that follow, and a flag. -/
def BtfType.kind (t : BtfType) : Nat := (t.info >>> 24 &&& 0x1f).toNat
def BtfType.vlen (t : BtfType) : Nat := (t.info &&& 0xffff).toNat
def BtfType.kflag (t : BtfType) : Bool := t.info >>> 31 != 0

structure BtfArray where
  type : UInt32
  indexType : UInt32
  nelems : UInt32

structure BtfMember where
  nameOff : UInt32
  type : UInt32
  offset : UInt32

structure BtfEnum where
  nameOff : UInt32
  val : UInt32

structure BtfParam where
  nameOff : UInt32
  type : UInt32

/-- With the flag, a member's offset has the size of a bit-field in its high byte. -/
def memberBitOffset (offset : UInt32) : UInt32 := offset &&& 0xffffff
def memberBitfieldSize (offset : UInt32) : UInt32 := offset >>> 24

/-- The word after an integer: its encoding, its offset and its bits. -/
def intEncoding (info : UInt32) : UInt32 := (info &&& 0x0f000000) >>> 24
def intOffset (info : UInt32) : UInt32 := (info &&& 0x00ff0000) >>> 16
def intBits (info : UInt32) : UInt32 := info &&& 0x000000ff

/-- A boolean comes before a character, and only characters and integers have a sign. -/
def encodingOf (rawEncoding : UInt32) : Integer.Encoding :=
  let isSigned := rawEncoding &&& 1 != 0
  let isChar := rawEncoding &&& 2 != 0
  let isBool := rawEncoding &&& 4 != 0
  if isBool then .boolean
  else if isChar then if isSigned then .signedCharacter else .unsignedCharacter
  else if isSigned then .signedInteger
  else .unsignedInteger

section

variable (data : List UInt8)

/-- The records as they stand in the bytes, without the reads. -/
def typeAt (offset : Nat) : BtfType :=
  ⟨u32At data offset, u32At data (offset + 4), u32At data (offset + 8)⟩

def arrayAt (offset : Nat) : BtfArray :=
  ⟨u32At data offset, u32At data (offset + 4), u32At data (offset + 8)⟩

def memberAt (offset : Nat) : BtfMember :=
  ⟨u32At data offset, u32At data (offset + 4), u32At data (offset + 8)⟩

def enumAt (offset : Nat) : BtfEnum := ⟨u32At data offset, u32At data (offset + 4)⟩

def paramAt (offset : Nat) : BtfParam := ⟨u32At data offset, u32At data (offset + 4)⟩

/-- The records as the source reads them, field by field. -/
def readType (t : Nat) : Reading BtfType := do
  let nameOff ← u32 data .types t
  let info ← u32 data .types (t + 4)
  let sizeOrType ← u32 data .types (t + 8)
  return ⟨nameOff, info, sizeOrType⟩

def readArray (array : Nat) : Reading BtfArray := do
  let type ← u32 data .types array
  let indexType ← u32 data .types (array + 4)
  let nelems ← u32 data .types (array + 8)
  return ⟨type, indexType, nelems⟩

def readMember (member : Nat) : Reading BtfMember := do
  let nameOff ← u32 data .types member
  let type ← u32 data .types (member + 4)
  let offset ← u32 data .types (member + 8)
  return ⟨nameOff, type, offset⟩

def readEnum (enum : Nat) : Reading BtfEnum := do
  let nameOff ← u32 data .types enum
  let val ← u32 data .types (enum + 4)
  return ⟨nameOff, val⟩

def readParam (param : Nat) : Reading BtfParam := do
  let nameOff ← u32 data .types param
  let type ← u32 data .types (param + 4)
  return ⟨nameOff, type⟩

end

/- Ids for type indexes. -/

instance : Builder Structs where
  graph s := s.graph
  withGraph graph s := { s with graph }

/-- `GetVoid` and `GetVariadic` each make their node at most once. -/
def getVoid : Reading Id := getShared (·.void) (fun id s => { s with void := some id }) .void

def getVariadic : Reading Id :=
  getShared (·.variadic) (fun id s => { s with variadic := some id }) .variadic

/-- An index that is new gets the next id, whose node is set when its record comes. -/
def getIdRaw (btfIndex : UInt32) : Reading Id := do
  match (← get).btfTypeIds.lookup btfIndex with
  | some id => return id
  | none =>
    let (id, graph) := (← get).graph.allocate
    modify fun s => { s with graph, btfTypeIds := emplace s.btfTypeIds btfIndex id }
    return id

/-- Index 0 is `void`, except for a parameter, where it is `...`. -/
def getId (btfIndex : UInt32) : Reading Id :=
  if btfIndex ≠ 0 then getIdRaw btfIndex else getVoid

def getParameterId (btfIndex : UInt32) : Reading Id :=
  if btfIndex ≠ 0 then getIdRaw btfIndex else getVariadic

def define (btfIndex : UInt32) (type : Node) : Reading Unit := do
  let id ← getIdRaw btfIndex
  let graph ← ofExcept ((← get).graph.set id type)
  modify fun s => { s with graph }

section

variable (data : List UInt8) (strings : MemoryRange)

/-- The position of the first null byte among the next `count`, or their end. -/
def findNull : Nat → Nat → Reading Nat
  | 0, position => return position
  | count + 1, position => do
    let bytes ← fetch data .strings position 1
    if bytes = [0] then return position else findNull count (position + 1)

/-- `GetName` finds the end of a string before the end of its section. -/
def getName (nameOff : UInt32) : Reading String := do
  let nameBegin := strings.start + nameOff.toNat
  let limit := strings.limit
  check (decide (nameBegin < limit)) "name offset exceeds string section length"
  let nameEnd ← findNull data (limit - nameBegin) nameBegin
  check (decide (nameEnd < limit)) "name continues past the string section limit"
  let bytes ← fetch data .strings nameBegin (nameEnd - nameBegin)
  return ofBytes bytes

/-- Each member is a node of its own. -/
def buildMembers (kflag : Bool) : Nat → Nat → Reading (List Id)
  | _, 0 => return []
  | members, vlen + 1 => do
    let rawMember ← readMember data members
    let name ← getName data strings rawMember.nameOff
    let rawOffset := rawMember.offset
    let offset := if kflag then memberBitOffset rawOffset else rawOffset
    let bitfieldSize := if kflag then memberBitfieldSize rawOffset else 0
    let typeId ← getId rawMember.type
    let id ← add (.member ⟨name, typeId, offset.toUInt64, bitfieldSize.toUInt64⟩)
    let rest ← buildMembers kflag (members + 12) vlen
    return id :: rest

def buildEnums : Nat → Nat → Reading (List (String × Int64))
  | _, 0 => return []
  | enums, vlen + 1 => do
    let enum ← readEnum data enums
    let name ← getName data strings enum.nameOff
    let rest ← buildEnums (enums + 8) vlen
    return (name, enum.val.toInt32.toInt64) :: rest

def buildParams : Nat → Nat → Reading (List Parameter)
  | _, 0 => return []
  | params, vlen + 1 => do
    let param ← readParam data params
    let name ← getName data strings param.nameOff
    let typeId ← getParameterId param.type
    let rest ← buildParams (params + 8) vlen
    return ⟨name, typeId⟩ :: rest

/- The cases of `BuildOneType`, by the kind of the record. -/

variable (t : BtfType) (btfIndex : UInt32) (memory : MemoryRange)

/-- The cursor returned is behind what the record has used. -/
def buildInt : Reading MemoryRange := do
  let (info, memory) ← memory.pull 4 1
  let info ← u32 data .types info
  let name ← getName data strings t.nameOff
  let encoding := encodingOf (intEncoding info)
  let offset := intOffset info
  let bits := intBits info
  check (offset == 0) ("BTF INT non-zero offset " ++ toString offset ++ "\n")
  define btfIndex (.integer ⟨name, encoding, bits, t.sizeOrType⟩)
  return memory

def buildPtr : Reading MemoryRange := do
  let typeId ← getId t.sizeOrType
  define btfIndex (.pointerReference ⟨.pointer, typeId⟩)
  return memory

def buildTypedef : Reading MemoryRange := do
  let name ← getName data strings t.nameOff
  let typeId ← getId t.sizeOrType
  define btfIndex (.typedef ⟨name, typeId⟩)
  return memory

def buildQualified (qualifier : Qualifier) : Reading MemoryRange := do
  let typeId ← getId t.sizeOrType
  define btfIndex (.qualified ⟨qualifier, typeId⟩)
  return memory

def buildArray : Reading MemoryRange := do
  let (array, memory) ← memory.pull 12 1
  let array ← readArray data array
  let typeId ← getId array.type
  define btfIndex (.array ⟨array.nelems.toUInt64, typeId⟩)
  return memory

def buildStructUnion (kind : StructUnion.Kind) : Reading MemoryRange := do
  let name ← getName data strings t.nameOff
  let (btfMembers, memory) ← memory.pull 12 t.vlen
  let members ← buildMembers data strings t.kflag btfMembers t.vlen
  define btfIndex (.structUnion ⟨kind, name, some ⟨t.sizeOrType.toUInt64, [], [], members⟩⟩)
  return memory

def buildEnum : Reading MemoryRange := do
  let name ← getName data strings t.nameOff
  let (enums, memory) ← memory.pull 8 t.vlen
  let enumerators ← buildEnums data strings enums t.vlen
  -- a forward declaration is a record without enumerators
  let definition := if t.vlen ≠ 0 then some ⟨t.sizeOrType, enumerators⟩ else none
  define btfIndex (.enumeration ⟨name, definition⟩)
  return memory

def buildForward : Reading MemoryRange := do
  let name ← getName data strings t.nameOff
  let structUnionKind := if t.kflag then .union else .struct
  define btfIndex (.structUnion ⟨structUnionKind, name, none⟩)
  return memory

/-- A function or a variable, and its entry in the map of symbols. -/
def buildSymbol (symbolType : ElfSymbol.SymbolType) (name : String) : Reading Unit := do
  let typeId ← getId t.sizeOrType
  define btfIndex (.elfSymbol
    ⟨name, none, true, symbolType, .global, .default, none, some typeId, none⟩)
  let id ← getIdRaw btfIndex
  let btfSymbols := (← get).btfSymbols
  let key : SymbolKey := ⟨"", name⟩
  modify fun s => { s with btfSymbols := btfSymbols.insert key id }
  check (decide (key ∉ btfSymbols.symbols.map (·.1))) ("duplicate symbol " ++ name)

def buildFunc : Reading MemoryRange := do
  let name ← getName data strings t.nameOff
  buildSymbol t btfIndex .function name
  return memory

def buildFuncProto : Reading MemoryRange := do
  let (params, memory) ← memory.pull 8 t.vlen
  let parameters ← buildParams data strings params t.vlen
  let returnTypeId ← getId t.sizeOrType
  define btfIndex (.function ⟨returnTypeId, parameters⟩)
  return memory

def buildVar : Reading MemoryRange := do
  let (variable_, memory) ← memory.pull 4 1
  let name ← getName data strings t.nameOff
  -- the linkage, which is only printed
  let _ ← u32 data .types variable_
  buildSymbol t btfIndex .object name
  return memory

def buildDatasec : Reading MemoryRange := do
  let (_, memory) ← memory.pull 12 t.vlen
  return memory

def buildOneType (t : Nat) (btfIndex : UInt32) (memory : MemoryRange) : Reading MemoryRange := do
  let t ← readType data t
  check (decide (t.kind < nrBtfKinds)) "Unknown BTF kind"
  match Kind.ofNumber? t.kind with
  | some .int => buildInt data strings t btfIndex memory
  | some .ptr => buildPtr t btfIndex memory
  | some .typedef => buildTypedef data strings t btfIndex memory
  | some .volatile => buildQualified t btfIndex memory .volatile
  | some .const => buildQualified t btfIndex memory .const
  | some .restrict => buildQualified t btfIndex memory .restrict
  | some .array => buildArray data btfIndex memory
  | some .struct => buildStructUnion data strings t btfIndex memory .struct
  | some .union => buildStructUnion data strings t btfIndex memory .union
  | some .enum => buildEnum data strings t btfIndex memory
  | some .fwd => buildForward data strings t btfIndex memory
  | some .func => buildFunc data strings t btfIndex memory
  | some .funcProto => buildFuncProto data strings t btfIndex memory
  | some .var => buildVar data strings t btfIndex memory
  | some .datasec => buildDatasec t memory
  | none => die "Unknown BTF kind"

/-- The loop of `BuildTypes`, up to the final state of its cursor. -/
def buildRecords : Nat → UInt32 → MemoryRange → Reading MemoryRange
  | 0, _, _ => throw .outOfFuel
  | fuel + 1, btfIndex, memory => do
    if memory.empty then return memory
    let (t, memory) ← memory.pull 12 1
    let memory ← buildOneType data strings t btfIndex memory
    buildRecords fuel (btfIndex + 1) memory

def buildSymbols : Reading Id := do
  add (.symbols (← get).btfSymbols)

def buildTypes (fuel : Nat) (memory : MemoryRange) : Reading Id := do
  let _ ← buildRecords data strings fuel 1 memory
  buildSymbols

/-- `PrintStrings` steps over each string and its null byte. -/
def printStrings : Nat → MemoryRange → Reading Unit
  | 0, _ => throw .outOfFuel
  | fuel + 1, memory => do
    if memory.empty then return ()
    let position ← findNull data (memory.limit - memory.start) memory.start
    check (decide (position < memory.limit)) "Error reading the string section"
    let size := position - memory.start
    let (text, memory) ← memory.pull 1 (size + 1)
    let _ ← fetch data .strings text size
    printStrings fuel memory

/-- What `PrintHeader` reads; the words that it prints are left out. -/
def printHeader : Reading Unit := do
  -- the magic, the version and the flags
  let _ ← fetch data .header 0 2
  let _ ← fetch data .header 2 1
  let _ ← fetch data .header 3 1
  let _ ← u32 data .header 4
  let _ ← u32 data .header 8
  let _ ← u32 data .header 12
  let _ ← u32 data .header 16
  let _ ← u32 data .header 20

structure BtfHeader where
  hdrLen : UInt32
  typeOff : UInt32
  typeLen : UInt32
  strOff : UInt32
  strLen : UInt32
  deriving DecidableEq, Repr

def ifVerbose (verbose : Bool) (action : Reading Unit) : Reading Unit :=
  if verbose then action else return ()

/-- `Process` up to the magic field, with the fields that it uses then. -/
def readHeader (verbose : Bool) : Reading BtfHeader := do
  check (decide (24 ≤ data.length)) "BTF section too small for header"
  ifVerbose verbose (printHeader data)
  let magic ← fetch data .header 0 2
  check (littleEndian magic == 0xEB9F) "Magic field must be 0xEB9F for BTF"
  let hdrLen ← u32 data .header 4
  let typeOff ← u32 data .header 8
  let typeLen ← u32 data .header 12
  let strOff ← u32 data .header 16
  let strLen ← u32 data .header 20
  return ⟨hdrLen, typeOff, typeLen, strOff, strLen⟩

def BtfHeader.typeSection (header : BtfHeader) : MemoryRange :=
  let start := header.hdrLen.toNat + header.typeOff.toNat
  ⟨start, start + header.typeLen.toNat⟩

def BtfHeader.stringSection (header : BtfHeader) : MemoryRange :=
  let start := header.hdrLen.toNat + header.strOff.toNat
  ⟨start, start + header.strLen.toNat⟩

/-- The checks of `Process` on the sections. -/
def checkSections (header : BtfHeader) : Reading Unit := do
  let headerLimit := header.hdrLen.toNat
  let types := header.typeSection
  let strings := header.stringSection
  check (decide (24 ≤ headerLimit)) "header exceeds length"
  check (decide (headerLimit ≤ types.start)) "type section overlaps header"
  check (decide (types.start ≤ types.limit)) "type section ill-formed"
  check (header.typeOff &&& (4 - 1) == 0) "misaligned type section"
  check (decide (types.limit ≤ strings.start)) "string section does not follow type section"
  check (decide (strings.start ≤ strings.limit)) "string section ill-formed"
  check (decide (strings.limit ≤ data.length)) "string section extends beyond end of BTF data"

def process (fuel : Nat) (verbose : Bool) : Reading Id := do
  let header ← readHeader data verbose
  checkSections data header
  let root ← buildTypes data header.stringSection fuel header.typeSection
  ifVerbose verbose (printStrings data fuel header.stringSection)
  return root

end

end Stg.Btf
