import Stg.Btf.Reader

set_option autoImplicit false

/- The type section as what it stands for: a sequence of records, each of which may
refer to others by their positions. -/
namespace Stg.Btf

structure RawMember where
  name : String
  type : UInt32
  offset : UInt64
  bitsize : UInt64
  deriving DecidableEq, Repr

structure RawParameter where
  name : String
  type : UInt32
  deriving DecidableEq, Repr

inductive Record where
  | int (name : String) (encoding : Integer.Encoding) (bitsize bytesize : UInt32)
  | ptr (type : UInt32)
  | typedef (name : String) (type : UInt32)
  | qualified (qualifier : Qualifier) (type : UInt32)
  | array (numberOfElements : UInt64) (type : UInt32)
  | structUnion (kind : StructUnion.Kind) (name : String) (bytesize : UInt64)
      (members : List RawMember)
  | enum (name : String) (definition : Option Enumeration.Definition)
  | forward (kind : StructUnion.Kind) (name : String)
  | symbol (symbolType : ElfSymbol.SymbolType) (name : String) (type : UInt32)
  | funcProto (returnType : UInt32) (parameters : List RawParameter)
  | datasec
  deriving DecidableEq

/-- The name at an offset into the string section, which ends before a null byte. -/
def nameAt (data : List UInt8) (strings : MemoryRange) (nameOff : UInt32) : String :=
  ofBytes ((data.drop (strings.start + nameOff.toNat)).takeWhile (· ≠ 0))

section

variable (data : List UInt8) (strings : MemoryRange)

def rawMemberAt (kflag : Bool) (offset : Nat) : RawMember where
  name := nameAt data strings (memberAt data offset).nameOff
  type := (memberAt data offset).type
  offset :=
    (if kflag then memberBitOffset (memberAt data offset).offset
      else (memberAt data offset).offset).toUInt64
  bitsize := (if kflag then memberBitfieldSize (memberAt data offset).offset else 0).toUInt64

def rawMembers (kflag : Bool) : Nat → Nat → List RawMember
  | _, 0 => []
  | members, vlen + 1 =>
    rawMemberAt data strings kflag members :: rawMembers kflag (members + 12) vlen

def enumeratorAt (offset : Nat) : String × Int64 :=
  (nameAt data strings (enumAt data offset).nameOff, (enumAt data offset).val.toInt32.toInt64)

def rawEnumerators : Nat → Nat → List (String × Int64)
  | _, 0 => []
  | enums, vlen + 1 => enumeratorAt data strings enums :: rawEnumerators (enums + 8) vlen

def rawParameterAt (offset : Nat) : RawParameter where
  name := nameAt data strings (paramAt data offset).nameOff
  type := (paramAt data offset).type

def rawParameters : Nat → Nat → List RawParameter
  | _, 0 => []
  | params, vlen + 1 => rawParameterAt data strings params :: rawParameters (params + 8) vlen

/-- What a record says, by its kind, its header and where its header ends. -/
def recordOf (t : BtfType) (payload : Nat) : Kind → Record
  | .int =>
    .int (nameAt data strings t.nameOff) (encodingOf (intEncoding (u32At data payload)))
      (intBits (u32At data payload)) t.sizeOrType
  | .ptr => .ptr t.sizeOrType
  | .typedef => .typedef (nameAt data strings t.nameOff) t.sizeOrType
  | .volatile => .qualified .volatile t.sizeOrType
  | .const => .qualified .const t.sizeOrType
  | .restrict => .qualified .restrict t.sizeOrType
  | .array => .array (arrayAt data payload).nelems.toUInt64 (arrayAt data payload).type
  | .struct =>
    .structUnion .struct (nameAt data strings t.nameOff) t.sizeOrType.toUInt64
      (rawMembers data strings t.kflag payload t.vlen)
  | .union =>
    .structUnion .union (nameAt data strings t.nameOff) t.sizeOrType.toUInt64
      (rawMembers data strings t.kflag payload t.vlen)
  | .enum =>
    .enum (nameAt data strings t.nameOff)
      (if t.vlen ≠ 0 then some ⟨t.sizeOrType, rawEnumerators data strings payload t.vlen⟩
        else none)
  | .fwd => .forward (if t.kflag then .union else .struct) (nameAt data strings t.nameOff)
  | .func => .symbol .function (nameAt data strings t.nameOff) t.sizeOrType
  | .var => .symbol .object (nameAt data strings t.nameOff) t.sizeOrType
  | .funcProto => .funcProto t.sizeOrType (rawParameters data strings payload t.vlen)
  | .datasec => .datasec

/-- The record at an offset, if its kind is known. -/
def recordAt (start : Nat) : Option Record :=
  (Kind.ofNumber? (typeAt data start).kind).map
    (recordOf data strings (typeAt data start) (start + 12))

/-- The number of bytes that follow a header. -/
def BtfType.payloadSize (t : BtfType) : Kind → Nat
  | .int | .var => 4
  | .array => 12
  | .struct | .union | .datasec => 12 * t.vlen
  | .enum | .funcProto => 8 * t.vlen
  | _ => 0

def BtfType.size (t : BtfType) : Nat :=
  12 + ((Kind.ofNumber? t.kind).map t.payloadSize).getD 0

/-- The records of a stretch of the type section, from its start to its limit. -/
inductive Records : Nat → Nat → List Record → Prop where
  | nil (limit : Nat) : Records limit limit []
  | cons {start limit : Nat} {record : Record} {records : List Record}
      (said : recordAt data strings start = some record)
      (rest : Records (start + (typeAt data start).size) limit records) :
      Records start limit (record :: records)

end

/-- Whether the record makes a node for its position. -/
def Record.defines : Record → Bool
  | .datasec => false
  | _ => true

/-- The record that defines a type index, counting from 1. -/
def definition (records : List Record) (index : UInt32) : Option Record :=
  if index = 0 then none else (records[index.toNat - 1]?).filter Record.defines

theorem definition_none {records : List Record} {index : UInt32}
    (after : records.length < index.toNat) :
    definition records index = none := by
  unfold definition
  split
  · rfl
  · rw [List.getElem?_eq_none (by omega)]
    rfl

def Record.members : Record → List RawMember
  | .structUnion _ _ _ members => members
  | _ => []

/-- The type indexes that a record's node keeps. -/
def Record.references : Record → List UInt32
  | .int .. | .enum .. | .forward .. | .datasec => []
  | .ptr type | .typedef _ type | .qualified _ type | .array _ type | .symbol _ _ type => [type]
  | .structUnion _ _ _ members => members.map (·.type)
  | .funcProto returnType parameters => returnType :: parameters.map (·.type)

/-- The name of a function or a variable. -/
def Record.symbolName : Record → Option String
  | .symbol _ name _ => some name
  | _ => none

theorem Records.le {data : List UInt8} {strings : MemoryRange} {start limit : Nat}
    {records : List Record} (tiled : Records data strings start limit records) :
    start + 12 * records.length ≤ limit := by
  induction tiled with
  | nil => simp
  | cons said rest ih =>
    rename_i start limit record records
    have size : 12 ≤ (typeAt data start).size := by
      unfold BtfType.size
      omega
    rw [List.length_cons]
    omega

end Stg.Btf
