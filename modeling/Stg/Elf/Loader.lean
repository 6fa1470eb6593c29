import Stg.Build

set_option autoImplicit false

/- The loader of ELF, over what libelf finds in a file. -/
namespace Stg.Elf

/-- `GElf_Shdr`, without the fields that are not read. -/
structure SectionHeader where
  name : UInt32
  type : UInt32
  link : UInt32
  size : UInt64
  entsize : UInt64
  deriving DecidableEq, Repr

/-- `GElf_Sym`. -/
structure Sym where
  name : UInt32
  info : UInt8
  other : UInt8
  shndx : UInt16
  value : UInt64
  size : UInt64
  deriving DecidableEq, Repr

/-- A section with what `gelf_getshdr`, `elf_getdata` (through `gelf_getsym`) and
`elf_rawdata` give for it. -/
structure Scn where
  index : Nat
  header : Option SectionHeader
  symbols : Option (Nat → Option Sym)
  rawData : Option (List UInt8)

/-- A file, as libelf sees it. -/
structure ElfLoader where
  /-- `e_type` of the header. -/
  type : Option UInt16
  sections : List Scn
  shdrStrtabIndex : Option Nat
  /-- `elf_strptr`. -/
  string : Nat → Nat → Option String

inductive ValueType where
  | undefined
  | absolute
  | common
  | relativeToSection
  deriving DecidableEq, Repr

inductive SymbolType where
  | notype
  | object
  | function
  | section_
  | file
  | common
  | tls
  | gnuIfunc
  deriving DecidableEq, Repr

structure SymbolTableEntry where
  name : String
  value : UInt64
  size : UInt64
  symbolType : SymbolType
  binding : ElfSymbol.Binding
  visibility : ElfSymbol.Visibility
  valueType : ValueType
  deriving DecidableEq, Repr

/-- An `unsigned char` is streamed as a character. -/
def streamed (byte : UInt8) : String := String.singleton (Char.ofNat byte.toNat)

def parseSymbolType (symbolType : UInt8) : Except Error SymbolType :=
  if symbolType = 0 then return .notype
  else if symbolType = 1 then return .object
  else if symbolType = 2 then return .function
  else if symbolType = 3 then return .section_
  else if symbolType = 4 then return .file
  else if symbolType = 5 then return .common
  else if symbolType = 6 then return .tls
  else if symbolType = 10 then return .gnuIfunc
  else die ("Unknown ELF symbol type: " ++ streamed symbolType)

def parseSymbolBinding (binding : UInt8) : Except Error ElfSymbol.Binding :=
  if binding = 0 then return .local_
  else if binding = 1 then return .global
  else if binding = 2 then return .weak
  else if binding = 10 then return .gnuUnique
  else die ("Unknown ELF symbol binding: " ++ streamed binding)

def parseSymbolVisibility (visibility : UInt8) : Except Error ElfSymbol.Visibility :=
  if visibility = 0 then return .default
  else if visibility = 1 then return .internal
  else if visibility = 2 then return .hidden
  else if visibility = 3 then return .protected_
  else die ("Unknown ELF symbol visibility: " ++ streamed visibility)

def parseSymbolValueType (sectionIndex : UInt16) : ValueType :=
  if sectionIndex = 0 then .undefined
  else if sectionIndex = 0xfff1 then .absolute
  else if sectionIndex = 0xfff2 then .common
  else .relativeToSection

def relocatable : UInt16 := 1
def executable : UInt16 := 2
def sharedObject : UInt16 := 3

def elfHeaderTypeToString (elfHeaderType : UInt8) : String :=
  if elfHeaderType = 0 then "none"
  else if elfHeaderType = 1 then "relocatable"
  else if elfHeaderType = 2 then "executable"
  else if elfHeaderType = 3 then "shared object"
  else if elfHeaderType = 4 then "coredump"
  else "unknown (type = " ++ toString elfHeaderType.toNat ++ ")"

def symtab : UInt32 := 2
def dynsym : UInt32 := 11

def elfSectionTypeToString (elfSectionType : UInt32) : String :=
  if elfSectionType = symtab then "symtab"
  else if elfSectionType = dynsym then "dynsym"
  else if elfSectionType = 0x6ffffffd then "GNU_verdef"
  else if elfSectionType = 0x6ffffffe then "GNU_verneed"
  else if elfSectionType = 0x6fffffff then "GNU_versym"
  else "unknown (type = " ++ toString elfSectionType.toNat ++ ")"

/-- The loop over the sections. -/
def sectionsIf (predicate : SectionHeader → Except Error Bool) :
    List Scn → Except Error (List Scn)
  | [] => return []
  | scn :: sections =>
    match scn.header with
    | none => die "could not get ELF section header"
    | some header => do
      let among ← predicate header
      let result ← sectionsIf predicate sections
      return if among then scn :: result else result

namespace ElfLoader

variable (elf : ElfLoader)

def getSectionsIf (predicate : SectionHeader → Except Error Bool) : Except Error (List Scn) :=
  sectionsIf predicate elf.sections

/-- The comparison of a null pointer with a string is undefined. -/
def getSectionsByName (name : String) : Except Error (List Scn) :=
  match elf.shdrStrtabIndex with
  | none => die "could not get ELF section header string table index"
  | some shdrStrtabIndex => elf.getSectionsIf fun header =>
    match elf.string shdrStrtabIndex header.name.toNat with
    | none => throw .undefined
    | some text => return text == name

def onlySection (kind : String) : List Scn → Except Error Scn
  | [] => die ("no section found with " ++ kind)
  | [scn] => return scn
  | _ => die ("multiple sections found with " ++ kind)

def getSectionByName (name : String) : Except Error Scn := do
  let sections ← elf.getSectionsByName name
  onlySection ("name '" ++ name ++ "'") sections

def getSectionByType (type : UInt32) : Except Error Scn := do
  let sections ← elf.getSectionsIf fun header => return header.type == type
  onlySection ("type " ++ toString type.toNat) sections

def getBtfRawData : Except Error (List UInt8) := do
  let btfSection ← elf.getSectionByName ".BTF"
  match btfSection.rawData with
  | none => die ".BTF section data is invalid"
  | some data => return data

/-- The type of the header is narrowed when it is made a string. -/
def getSymbolTableSection : Except Error Scn :=
  match elf.type with
  | none => die "could not get ELF header"
  | some type =>
    if type = relocatable then elf.getSectionByType symtab
    else if type = sharedObject ∨ type = executable then elf.getSectionByType dynsym
    else die ("unsupported ELF type: '" ++ elfHeaderTypeToString type.toUInt8 ++ "'")

def getString (sectionIndex offset : Nat) : Except Error String :=
  match elf.string sectionIndex offset with
  | none => die ("string was not found (section: " ++ toString sectionIndex ++ ", offset: " ++
      toString offset ++ ")")
  | some name => return name

end ElfLoader

def Scn.getSectionInfo (self : Scn) : Except Error (SectionHeader × (Nat → Option Sym)) :=
  match self.header, self.symbols with
  | none, _ => die ("failed to read section (index = " ++ toString self.index ++ ") header")
  | some _, none => die ("section (index = " ++ toString self.index ++ ") data is invalid")
  | some header, some symbols => return (header, symbols)

def getNumberOfEntries (header : SectionHeader) : Except Error Nat := do
  check (header.entsize != 0) ("zero table entity size is unexpected for section " ++
    elfSectionTypeToString header.type)
  return (header.size / header.entsize).toNat

/-- The entry of a symbol, from the parts of the fields that `GELF_ST_TYPE`,
`GELF_ST_BIND` and `GELF_ST_VISIBILITY` take. -/
def ElfLoader.makeEntry (elf : ElfLoader) (link : UInt32) (symbol : Sym) : Except Error SymbolTableEntry := do
  let name ← elf.getString link.toNat symbol.name.toNat
  let symbolType ← parseSymbolType (symbol.info &&& 0xf)
  let binding ← parseSymbolBinding (symbol.info >>> 4)
  let visibility ← parseSymbolVisibility (symbol.other &&& 3)
  return ⟨name, symbol.value, symbol.size, symbolType, binding, visibility,
    parseSymbolValueType symbol.shndx⟩

/-- The loop over the symbols, from an index on. -/
def ElfLoader.entriesFrom (elf : ElfLoader) (link : UInt32) (symbols : Nat → Option Sym) :
    Nat → Nat → Except Error (List SymbolTableEntry)
  | 0, _ => return []
  | count + 1, i =>
    match symbols i with
    | none => die ("symbol (i = " ++ toString i ++ ") was not found")
    | some symbol => do
      let entry ← elf.makeEntry link symbol
      let rest ← elf.entriesFrom link symbols count (i + 1)
      return entry :: rest

def ElfLoader.getElfSymbols (elf : ElfLoader) : Except Error (List SymbolTableEntry) := do
  let symbolTableSection ← elf.getSymbolTableSection
  let (header, data) ← symbolTableSection.getSectionInfo
  let numberOfSymbols ← getNumberOfEntries header
  elf.entriesFrom header.link data numberOfSymbols 0

/-- What opening a file gives: `elf_begin` can fail after `open`. -/
inductive Opened where
  | unopened
  | unreadable
  | opened (elf : ElfLoader)

/-- The constructor of `ElfLoader`. -/
def load (versionMatches : Bool) (path : String) : Opened → Except Error ElfLoader
  | .unopened => die ("Could not open " ++ path)
  | .unreadable => do
    check versionMatches "ELF version mismatch"
    die ("ELF data not found in " ++ path)
  | .opened elf => do
    check versionMatches "ELF version mismatch"
    return elf

/-- `elf::Read` of a loaded file. The symbols are read but not used. -/
def read (graph : Graph) (elf : ElfLoader) : Except Error (Id × Graph) := do
  let _ ← elf.getElfSymbols
  graph.add (.symbols .empty)

end Stg.Elf
