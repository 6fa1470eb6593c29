import Stg.Btf.Accepts
import Stg.Lib.Layout

set_option autoImplicit false

/- Records written out as an input, and that the reader reads them back. -/
namespace Stg.Btf

open Layout (At at_append)

/- Words and their fields. -/

theorem littleEndian_word (value : UInt32) : littleEndian (word value) = value.toNat := by
  have small := value.toNat_lt
  simp only [word, littleEndian, UInt32.toNat_toUInt8, UInt32.toNat_shiftRight,
    Nat.shiftRight_eq_div_pow]
  show value.toNat % 256 + 256 * (value.toNat / 2 ^ 8 % 256 + 256 * (value.toNat / 2 ^ 16 % 256 +
    256 * (value.toNat / 2 ^ 24 % 256 + 256 * 0))) = value.toNat
  omega

theorem word_length (value : UInt32) : (word value).length = 4 := rfl

theorem words_length (values : List UInt32) : (values.flatMap word).length = 4 * values.length := by
  induction values with
  | nil => rfl
  | cons value values ih =>
    rw [List.flatMap_cons, List.length_append, ih, word_length, List.length_cons]
    omega

theorem u32At_word {data : List UInt8} {offset : Nat} {value : UInt32} {rest : List UInt8}
    (at_ : At data offset (word value ++ rest)) : u32At data offset = value := by
  have read : bytesAt data offset 4 = word value := at_.left.take rfl
  rw [u32At, read, littleEndian_word]
  exact UInt32.ofNat_toNat

theorem toNat_mask (value : UInt32) (bits : Nat) (mask : UInt32)
    (ones : mask.toNat = 2 ^ bits - 1) :
    (value &&& mask).toNat = value.toNat % 2 ^ bits := by
  rw [UInt32.toNat_and, ones, Nat.and_two_pow_sub_one_eq_mod]

theorem toNat_toUInt32 {value : Nat} (small : value < 2 ^ 32) : value.toUInt32.toNat = value := by
  show (UInt32.ofNat value).toNat = value
  rw [UInt32.toNat_ofNat']
  exact Nat.mod_eq_of_lt small

/-- The second word of a header. -/
def infoOf (kind vlen : Nat) (kflag : Bool) : UInt32 :=
  (vlen + kind * 2 ^ 24 + if kflag then 2 ^ 31 else 0).toUInt32

section

variable {kind vlen : Nat} {kflag : Bool} {nameOff sizeOrType : UInt32}

theorem infoOf_toNat (known : kind < 32) (short : vlen < 2 ^ 16) :
    (infoOf kind vlen kflag).toNat = vlen + kind * 2 ^ 24 + if kflag then 2 ^ 31 else 0 := by
  apply toNat_toUInt32
  split <;> omega

theorem kind_infoOf (known : kind < 32) (short : vlen < 2 ^ 16) :
    (BtfType.mk nameOff (infoOf kind vlen kflag) sizeOrType).kind = kind := by
  unfold BtfType.kind
  rw [toNat_mask _ 5 0x1f rfl, UInt32.toNat_shiftRight, infoOf_toNat known short,
    Nat.shiftRight_eq_div_pow]
  show (vlen + kind * 2 ^ 24 + if kflag then 2 ^ 31 else 0) / 2 ^ 24 % 2 ^ 5 = kind
  split <;> omega

theorem vlen_infoOf (known : kind < 32) (short : vlen < 2 ^ 16) :
    (BtfType.mk nameOff (infoOf kind vlen kflag) sizeOrType).vlen = vlen := by
  unfold BtfType.vlen
  rw [toNat_mask _ 16 0xffff rfl, infoOf_toNat known short]
  split <;> omega

theorem kflag_infoOf (known : kind < 32) (short : vlen < 2 ^ 16) :
    (BtfType.mk nameOff (infoOf kind vlen kflag) sizeOrType).kflag = kflag := by
  have top : (infoOf kind vlen kflag >>> 31).toNat = if kflag then 1 else 0 := by
    rw [UInt32.toNat_shiftRight, infoOf_toNat known short, Nat.shiftRight_eq_div_pow]
    show (vlen + kind * 2 ^ 24 + if kflag then 2 ^ 31 else 0) / 2 ^ 31 = _
    split <;> omega
  unfold BtfType.kflag
  cases kflag with
  | false =>
    have zero : infoOf kind vlen false >>> 31 = 0 := UInt32.toNat_inj.mp top
    simp [zero]
  | true =>
    have one : infoOf kind vlen true >>> 31 = 1 := UInt32.toNat_inj.mp top
    simp [one]

end

/- Names. -/

/-- The characters of the name are the codes of bytes other than the null byte. -/
def Spelt (name : String) : Prop := ∀ c ∈ name.toList, 0 < c.toNat ∧ c.toNat < 256

instance : DecidablePred Spelt := fun name =>
  List.decidableBAll (fun c : Char => 0 < c.toNat ∧ c.toNat < 256) name.toList

def nameBytes (name : String) : List UInt8 := name.toList.map (fun c => c.toNat.toUInt8) ++ [0]

theorem toNat_toUInt8 {value : Nat} (small : value < 256) : value.toUInt8.toNat = value := by
  show (UInt8.ofNat value).toNat = value
  rw [UInt8.toNat_ofNat']
  exact Nat.mod_eq_of_lt small

/-- The names lie one after the other at an offset into the string section. -/
structure NamesAt (data : List UInt8) (strings : MemoryRange) (off : Nat) (names : List String) : Prop where
  at_ : At data (strings.start + off) (names.flatMap nameBytes)
  within : strings.start + off + (names.flatMap nameBytes).length ≤ strings.limit
  short : off + (names.flatMap nameBytes).length < 2 ^ 32
  spelt : ∀ name ∈ names, Spelt name

section

variable {data : List UInt8} {strings : MemoryRange} {off : Nat} {name : String}
  {names names' : List String}

theorem NamesAt.right (named : NamesAt data strings off (names ++ names')) :
    NamesAt data strings (off + (names.flatMap nameBytes).length) names' := by
  obtain ⟨at_, within, short, spelt⟩ := named
  rw [List.flatMap_append] at at_ within short
  rw [List.length_append] at within short
  refine ⟨?_, by omega, by omega, fun name among => spelt name (List.mem_append_right _ among)⟩
  rw [← Nat.add_assoc]
  exact at_.right

theorem NamesAt.left (named : NamesAt data strings off (names ++ names')) :
    NamesAt data strings off names := by
  obtain ⟨at_, within, short, spelt⟩ := named
  rw [List.flatMap_append] at at_ within short
  rw [List.length_append] at within short
  exact ⟨at_.left, by omega, by omega, fun name among => spelt name (List.mem_append_left _ among)⟩

theorem NamesAt.tail (named : NamesAt data strings off (name :: names)) :
    NamesAt data strings (off + (nameBytes name).length) names := by
  have rest := @NamesAt.right data strings off [name] names named
  rwa [List.flatMap_singleton] at rest

theorem NamesAt.head (named : NamesAt data strings off (name :: names)) :
    NameFormed data strings off.toUInt32 ∧ nameAt data strings off.toUInt32 = name := by
  obtain ⟨at_, within, short, spelt⟩ := @NamesAt.left data strings off [name] names named
  rw [List.flatMap_singleton] at at_ within short
  have length : (nameBytes name).length = name.toList.length + 1 := by simp [nameBytes]
  have exactly : off.toUInt32.toNat = off := toNat_toUInt32 (by omega)
  constructor
  · refine ⟨strings.start + off + name.toList.length, by omega, by omega, ?_⟩
    rw [at_.getElem? (by omega), nameBytes, List.getElem?_append_right (by simp)]
    simp
  · have chars : ∀ c ∈ name.toList, Char.ofNat c.toNat.toUInt8.toNat = c := fun c among => by
      rw [toNat_toUInt8 (spelt name List.mem_cons_self c among).2, Char.ofNat_toNat]
    have filled : ∀ byte ∈ name.toList.map fun c => c.toNat.toUInt8, decide (byte ≠ 0) = true := by
      intro byte among
      obtain ⟨c, listed, rfl⟩ := List.mem_map.mp among
      have code := spelt name List.mem_cons_self c listed
      refine decide_eq_true fun zero => ?_
      have null := congrArg UInt8.toNat zero
      rw [toNat_toUInt8 code.2] at null
      exact absurd null (Nat.pos_iff_ne_zero.mp code.1)
    unfold nameAt
    rw [exactly, at_.takeWhile filled (by decide), ofBytes, List.map_map]
    show String.ofList (name.toList.map fun c => Char.ofNat c.toNat.toUInt8.toNat) = name
    rw [List.map_congr_left chars, List.map_id', String.ofList_toList]

end

/- Records. -/

def Record.names : Record → List String
  | .int name .. | .typedef name _ | .forward _ name | .symbol _ name _ => [name]
  | .structUnion _ name _ members => name :: members.map (·.name)
  | .enum name definition => name :: ((definition.map (·.enumerators)).getD []).map (·.1)
  | .funcProto _ parameters => parameters.map (·.name)
  | .ptr _ | .qualified .. | .array .. | .datasec => []

/-- The words for the members, whose names follow each other from an offset on. -/
def memberWords (kflag : Bool) : Nat → List RawMember → List UInt32
  | _, [] => []
  | off, member :: members =>
    off.toUInt32 :: member.type ::
      (member.offset.toNat + if kflag then member.bitsize.toNat * 2 ^ 24 else 0).toUInt32 ::
      memberWords kflag (off + (nameBytes member.name).length) members

def enumeratorWords : Nat → List (String × Int64) → List UInt32
  | _, [] => []
  | off, enumerator :: enumerators =>
    off.toUInt32 :: enumerator.2.toInt32.toUInt32 ::
      enumeratorWords (off + (nameBytes enumerator.1).length) enumerators

def parameterWords : Nat → List RawParameter → List UInt32
  | _, [] => []
  | off, parameter :: parameters =>
    off.toUInt32 :: parameter.type :: parameterWords (off + (nameBytes parameter.name).length) parameters

def headerWords (off kind vlen : Nat) (kflag : Bool) (sizeOrType : UInt32) : List UInt32 :=
  [off.toUInt32, infoOf kind vlen kflag, sizeOrType]

def encodingBits : Integer.Encoding → Nat
  | .signedInteger => 1
  | .signedCharacter => 3
  | .unsignedCharacter => 2
  | .boolean => 4
  | _ => 0

def hasBitfields (members : List RawMember) : Bool := members.any fun member => member.bitsize ≠ 0

/-- The words of a record whose names follow each other from an offset on. -/
def Record.words (off : Nat) : Record → List UInt32
  | .int _ encoding bitsize bytesize =>
    headerWords off 1 0 false bytesize ++ [(bitsize.toNat + encodingBits encoding * 2 ^ 24).toUInt32]
  | .ptr type => headerWords 0 2 0 false type
  | .array numberOfElements type =>
    headerWords 0 3 0 false 0 ++ [type, 0, numberOfElements.toUInt32]
  | .structUnion kind name bytesize members =>
    headerWords off (if kind = .union then 5 else 4) members.length (hasBitfields members)
      bytesize.toUInt32 ++
      memberWords (hasBitfields members) (off + (nameBytes name).length) members
  | .enum _ none => headerWords off 6 0 false 0
  | .enum name (some definition) =>
    headerWords off 6 definition.enumerators.length false definition.bytesize ++
      enumeratorWords (off + (nameBytes name).length) definition.enumerators
  | .forward kind _ => headerWords off 7 0 (kind = .union) 0
  | .typedef _ type => headerWords off 8 0 false type
  | .qualified qualifier type =>
    headerWords 0 (match qualifier with
      | .volatile => 9
      | .const => 10
      | .restrict => 11) 0 false type
  | .symbol .function _ type => headerWords off 12 0 false type
  | .symbol _ _ type => headerWords off 14 0 false type ++ [1]
  | .funcProto returnType parameters =>
    headerWords 0 13 parameters.length false returnType ++ parameterWords off parameters
  | .datasec => headerWords 0 15 0 false 0

/-- The record is one that the format can express. -/
def Record.Encodable : Record → Prop
  | .int _ encoding bitsize _ => bitsize.toNat < 256 ∧ encoding ≠ .utf
  | .array numberOfElements _ => numberOfElements.toNat < 2 ^ 32
  | .structUnion kind _ bytesize members =>
    kind ≠ .class_ ∧ bytesize.toNat < 2 ^ 32 ∧ members.length < 2 ^ 16 ∧
      ∀ member ∈ members, if hasBitfields members then
        member.offset.toNat < 2 ^ 24 ∧ member.bitsize.toNat < 256 else member.offset.toNat < 2 ^ 32
  | .enum _ (some definition) =>
    definition.enumerators ≠ [] ∧ definition.enumerators.length < 2 ^ 16 ∧
      ∀ enumerator ∈ definition.enumerators, enumerator.2.toInt32.toInt64 = enumerator.2
  | .forward kind _ => kind ≠ .class_
  | .symbol symbolType _ _ => symbolType = .function ∨ symbolType = .object
  | .funcProto _ parameters => parameters.length < 2 ^ 16
  | .ptr _ | .typedef .. | .qualified .. | .enum _ none | .datasec => True

instance : DecidablePred Record.Encodable
  | .int .. => inferInstanceAs (Decidable (_ ∧ _))
  | .array .. => inferInstanceAs (Decidable (_ < _))
  | .structUnion kind _ bytesize members =>
    inferInstanceAs (Decidable (kind ≠ .class_ ∧ bytesize.toNat < 2 ^ 32 ∧ members.length < 2 ^ 16 ∧
      ∀ member ∈ members, if hasBitfields members then
        member.offset.toNat < 2 ^ 24 ∧
          member.bitsize.toNat < 256 else member.offset.toNat < 2 ^ 32))
  | .enum _ (some definition) =>
    inferInstanceAs (Decidable (definition.enumerators ≠ [] ∧
      definition.enumerators.length < 2 ^ 16 ∧
      ∀ enumerator ∈ definition.enumerators, enumerator.2.toInt32.toInt64 = enumerator.2))
  | .forward .. => inferInstanceAs (Decidable (_ ≠ _))
  | .symbol .. => inferInstanceAs (Decidable (_ ∨ _))
  | .funcProto .. => inferInstanceAs (Decidable (_ < _))
  | .ptr _ | .typedef .. | .qualified .. | .enum _ none | .datasec =>
    inferInstanceAs (Decidable True)

/- Reading records back. -/

section

variable {data : List UInt8} {strings : MemoryRange} {start limit off payload : Nat}
  {value : UInt32}
  {values : List UInt32}

theorem u32At_words (words : At data start ((value :: values).flatMap word)) :
    u32At data start = value ∧ At data (start + 4) (values.flatMap word) := by
  rw [List.flatMap_cons] at words
  exact ⟨u32At_word words, words.right⟩

/-- The header of a record is read back. -/
structure HeaderRead (data : List UInt8) (start off kind vlen : Nat) (kflag : Bool) (sizeOrType : UInt32) :
    Prop where
  nameOff : (typeAt data start).nameOff = off.toUInt32
  kind : (typeAt data start).kind = kind
  vlen : (typeAt data start).vlen = vlen
  kflag : (typeAt data start).kflag = kflag
  sizeOrType : (typeAt data start).sizeOrType = sizeOrType

theorem HeaderRead.known {kind vlen : Nat} {kflag : Bool} {sizeOrType : UInt32}
    (header : HeaderRead data start off kind vlen kflag sizeOrType) :
    Kind.ofNumber? (typeAt data start).kind = Kind.ofNumber? kind :=
      congrArg Kind.ofNumber? header.kind

theorem header_words {kind vlen : Nat} {kflag : Bool} {sizeOrType : UInt32} (low : kind < 32)
    (count : vlen < 2 ^ 16)
    (words : At data start ((headerWords off kind vlen kflag sizeOrType ++ values).flatMap word)) :
    HeaderRead data start off kind vlen kflag sizeOrType ∧
      At data (start + 12) (values.flatMap word) := by
  obtain ⟨first, words⟩ := u32At_words words
  obtain ⟨second, words⟩ := u32At_words words
  obtain ⟨third, words⟩ := u32At_words words
  have type : typeAt data start = ⟨off.toUInt32, infoOf kind vlen kflag, sizeOrType⟩ := by
    rw [typeAt, first, second, third]
  refine ⟨⟨?_, ?_, ?_, ?_, ?_⟩, words⟩
  · rw [type]
  · rw [type, kind_infoOf low count]
  · rw [type, vlen_infoOf low count]
  · rw [type, kflag_infoOf low count]
  · rw [type]

theorem header_alone {kind : Nat} {kflag : Bool} {sizeOrType : UInt32} (low : kind < 32)
    (words : At data start ((headerWords off kind 0 kflag sizeOrType).flatMap word)) :
    HeaderRead data start off kind 0 kflag sizeOrType :=
  (@header_words _ _ _ [] _ _ _ _ low (by decide) words).1

theorem toUInt64_toUInt32 {value : UInt64} (small : value.toNat < 2 ^ 32) :
    value.toNat.toUInt32.toUInt64 = value := by
  apply UInt64.toNat_inj.mp
  rw [UInt32.toNat_toUInt64, toNat_toUInt32 small]

theorem toUInt32_toUInt64 {value : UInt64} (small : value.toNat < 2 ^ 32) :
    value.toUInt32.toUInt64 = value := by
  apply UInt64.toNat_inj.mp
  rw [UInt32.toNat_toUInt64, UInt64.toNat_toUInt32]
  exact Nat.mod_eq_of_lt small

/-- The members are within the widths of their fields. -/
def MembersFit (kflag : Bool) (members : List RawMember) : Prop :=
  ∀ member ∈ members, if kflag then member.offset.toNat < 2 ^ 24 ∧ member.bitsize.toNat < 256
    else member.offset.toNat < 2 ^ 32 ∧ member.bitsize = 0

theorem members_encoded {kflag : Bool} {members : List RawMember} (fit : MembersFit kflag members)
    (words : At data payload ((memberWords kflag off members).flatMap word))
    (named : NamesAt data strings off (members.map (·.name))) :
    rawMembers data strings kflag payload members.length = members ∧
      ∀ nameOff ∈ (strided 12 payload members.length).map fun member =>
        (memberAt data member).nameOff,
        NameFormed data strings nameOff := by
  induction members generalizing payload off with
  | nil => exact ⟨rfl, nofun⟩
  | cons member members ih =>
    obtain ⟨own, fit⟩ := List.forall_mem_cons.mp fit
    obtain ⟨first, words⟩ := u32At_words words
    obtain ⟨second, words⟩ := u32At_words words
    obtain ⟨third, words⟩ := u32At_words words
    obtain ⟨formed, name⟩ := named.head
    obtain ⟨rest, names⟩ := ih fit words named.tail
    have read : memberAt data payload = ⟨off.toUInt32, member.type,
        (member.offset.toNat + if kflag then member.bitsize.toNat * 2 ^ 24 else 0).toUInt32⟩ := by
      rw [memberAt, first, second, third]
    constructor
    · rw [List.length_cons, rawMembers, rest]
      congr 1
      obtain ⟨text, type, offset, bitsize⟩ := member
      unfold rawMemberAt
      rw [read]
      cases kflag with
      | false =>
        obtain ⟨small, zero⟩ : offset.toNat < 2 ^ 32 ∧ bitsize = 0 := own
        simp only [Bool.false_eq_true, ↓reduceIte, Nat.add_zero, RawMember.mk.injEq]
        exact ⟨name, trivial, toUInt64_toUInt32 small, zero.symm⟩
      | true =>
        obtain ⟨low, high⟩ : offset.toNat < 2 ^ 24 ∧ bitsize.toNat < 256 := own
        have exactly : (offset.toNat + bitsize.toNat * 2 ^ 24).toUInt32.toNat =
            offset.toNat + bitsize.toNat * 2 ^ 24 := toNat_toUInt32 (by omega)
        simp only [↓reduceIte, RawMember.mk.injEq]
        refine ⟨name, trivial, ?_, ?_⟩
        · apply UInt64.toNat_inj.mp
          rw [UInt32.toNat_toUInt64, memberBitOffset, toNat_mask _ 24 0xffffff rfl, exactly]
          omega
        · apply UInt64.toNat_inj.mp
          rw [UInt32.toNat_toUInt64, memberBitfieldSize, UInt32.toNat_shiftRight, exactly,
            Nat.shiftRight_eq_div_pow]
          show (offset.toNat + bitsize.toNat * 2 ^ 24) / 2 ^ 24 = bitsize.toNat
          omega
    · rw [List.length_cons, strided, List.map_cons]
      refine List.forall_mem_cons.mpr ⟨?_, names⟩
      rw [read]
      exact formed

theorem enumerators_encoded {enumerators : List (String × Int64)}
    (fit : ∀ enumerator ∈ enumerators, enumerator.2.toInt32.toInt64 = enumerator.2)
    (words : At data payload ((enumeratorWords off enumerators).flatMap word))
    (named : NamesAt data strings off (enumerators.map (·.1))) :
    rawEnumerators data strings payload enumerators.length = enumerators ∧
      ∀ nameOff ∈ (strided 8 payload enumerators.length).map fun enum => (enumAt data enum).nameOff,
        NameFormed data strings nameOff := by
  induction enumerators generalizing payload off with
  | nil => exact ⟨rfl, nofun⟩
  | cons enumerator enumerators ih =>
    obtain ⟨own, fit⟩ := List.forall_mem_cons.mp fit
    obtain ⟨first, words⟩ := u32At_words words
    obtain ⟨second, words⟩ := u32At_words words
    obtain ⟨formed, name⟩ := named.head
    obtain ⟨rest, names⟩ := ih fit words named.tail
    have read : enumAt data payload = ⟨off.toUInt32, enumerator.2.toInt32.toUInt32⟩ := by
      rw [enumAt, first, second]
    constructor
    · rw [List.length_cons, rawEnumerators, rest]
      congr 1
      obtain ⟨text, value⟩ := enumerator
      rw [enumeratorAt, read]
      exact Prod.ext name own
    · rw [List.length_cons, strided, List.map_cons]
      refine List.forall_mem_cons.mpr ⟨?_, names⟩
      rw [read]
      exact formed

theorem parameters_encoded {parameters : List RawParameter}
    (words : At data payload ((parameterWords off parameters).flatMap word))
    (named : NamesAt data strings off (parameters.map (·.name))) :
    rawParameters data strings payload parameters.length = parameters ∧
      ∀ nameOff ∈ (strided 8 payload parameters.length).map fun param =>
        (paramAt data param).nameOff,
        NameFormed data strings nameOff := by
  induction parameters generalizing payload off with
  | nil => exact ⟨rfl, nofun⟩
  | cons parameter parameters ih =>
    obtain ⟨first, words⟩ := u32At_words words
    obtain ⟨second, words⟩ := u32At_words words
    obtain ⟨formed, name⟩ := named.head
    obtain ⟨rest, names⟩ := ih words named.tail
    have read : paramAt data payload = ⟨off.toUInt32, parameter.type⟩ := by
      rw [paramAt, first, second]
    constructor
    · rw [List.length_cons, rawParameters, rest]
      congr 1
      obtain ⟨text, type⟩ := parameter
      rw [rawParameterAt, read]
      exact congrArg (RawParameter.mk · type) name
    · rw [List.length_cons, strided, List.map_cons]
      refine List.forall_mem_cons.mpr ⟨?_, names⟩
      rw [read]
      exact formed

/-- The record is read back from the start, and its words are all that is read. -/
structure Encoded (data : List UInt8) (strings : MemoryRange) (start : Nat) (record : Record) (words : Nat)
    (kind : Kind) : Prop where
  known : Kind.ofNumber? (typeAt data start).kind = some kind
  size : 12 + (typeAt data start).payloadSize kind = 4 * words
  names : ∀ nameOff ∈ nameOffsets data (typeAt data start) (start + 12) kind, NameFormed data strings nameOff
  bits : kind = .int → intOffset (u32At data (start + 12)) = 0
  read : recordOf data strings (typeAt data start) (start + 12) kind = record

theorem intInfo_encoded {encoding : Integer.Encoding} {bitsize : UInt32}
    (small : bitsize.toNat < 256)
    (known : encoding ≠ .utf) :
    encodingOf (intEncoding (bitsize.toNat + encodingBits encoding * 2 ^ 24).toUInt32) = encoding ∧
      intOffset (bitsize.toNat + encodingBits encoding * 2 ^ 24).toUInt32 = 0 ∧
      intBits (bitsize.toNat + encodingBits encoding * 2 ^ 24).toUInt32 = bitsize := by
  have low : encodingBits encoding < 8 := by cases encoding <;> decide
  have exactly : (bitsize.toNat + encodingBits encoding * 2 ^ 24).toUInt32.toNat =
      bitsize.toNat + encodingBits encoding * 2 ^ 24 := toNat_toUInt32 (by omega)
  have shifted (value mask : UInt32) (by_ bits : Nat) (amount : UInt32)
      (amounts : amount.toNat % 32 = by_)
      (ones : mask.toNat = (2 ^ bits - 1) <<< by_) :
      ((value &&& mask) >>> amount).toNat = value.toNat / 2 ^ by_ % 2 ^ bits := by
    rw [UInt32.toNat_shiftRight, UInt32.toNat_and, amounts, ones, Nat.shiftRight_and_distrib,
      Nat.shiftLeft_shiftRight, Nat.and_two_pow_sub_one_eq_mod, Nat.shiftRight_eq_div_pow]
  refine ⟨?_, ?_, ?_⟩
  · have bits : intEncoding (bitsize.toNat + encodingBits encoding * 2 ^ 24).toUInt32 =
        (encodingBits encoding).toUInt32 := by
      apply UInt32.toNat_inj.mp
      rw [intEncoding, shifted _ _ 24 4 24 rfl rfl, exactly, toNat_toUInt32 (by omega)]
      omega
    rw [bits]
    cases encoding with
    | utf => exact absurd rfl known
    | _ => rfl
  · apply UInt32.toNat_inj.mp
    rw [intOffset, shifted _ _ 16 8 16 rfl rfl, exactly]
    show (bitsize.toNat + encodingBits encoding * 2 ^ 24) / 2 ^ 16 % 2 ^ 8 = 0
    omega
  · apply UInt32.toNat_inj.mp
    rw [intBits, toNat_mask _ 8 0xff rfl, exactly]
    omega

theorem memberWords_length (kflag : Bool) (off : Nat) (members : List RawMember) :
    (memberWords kflag off members).length = 3 * members.length := by
  induction members generalizing off with
  | nil => rfl
  | cons member members ih =>
    simp only [memberWords, List.length_cons, ih]
    omega

theorem enumeratorWords_length (off : Nat) (enumerators : List (String × Int64)) :
    (enumeratorWords off enumerators).length = 2 * enumerators.length := by
  induction enumerators generalizing off with
  | nil => rfl
  | cons enumerator enumerators ih =>
    simp only [enumeratorWords, List.length_cons, ih]
    omega

theorem parameterWords_length (off : Nat) (parameters : List RawParameter) :
    (parameterWords off parameters).length = 2 * parameters.length := by
  induction parameters generalizing off with
  | nil => rfl
  | cons parameter parameters ih =>
    simp only [parameterWords, List.length_cons, ih]
    omega

/-- A record without bit-fields has no member with a size in bits. -/
theorem membersFit {members : List RawMember}
    (fit : ∀ member ∈ members, if hasBitfields members then
      member.offset.toNat < 2 ^ 24 ∧ member.bitsize.toNat < 256 else member.offset.toNat < 2 ^ 32) :
    MembersFit (hasBitfields members) members := by
  intro member among
  have own := fit member among
  split at own
  · rename_i bitfields
    rwa [if_pos bitfields]
  · rename_i plain
    rw [if_neg plain]
    refine ⟨own, ?_⟩
    by_contra sized
    exact plain (List.any_eq_true.mpr ⟨member, among, decide_eq_true sized⟩)

/-- Where the words and the names of the record are in the data, it is read back. -/
def ReadBack (data : List UInt8) (strings : MemoryRange) (start off : Nat) (record : Record) : Prop :=
  At data start ((record.words off).flatMap word) → NamesAt data strings off record.names →
    ∃ kind, Encoded data strings start record (record.words off).length kind

theorem int_encoded {name : String} {encoding : Integer.Encoding} {bitsize bytesize : UInt32}
    (encodable : (Record.int name encoding bitsize bytesize).Encodable) :
    ReadBack data strings start off (.int name encoding bitsize bytesize) := by
  intro words named
  obtain ⟨header, words⟩ := header_words (by decide) (by decide) words
  obtain ⟨info, _⟩ := u32At_words words
  obtain ⟨formed, text⟩ := named.head
  obtain ⟨encodes, zero, bits⟩ := intInfo_encoded encodable.1 encodable.2
  refine ⟨.int, header.known, rfl, ?_, fun _ => ?_, ?_⟩
  · rw [nameOffsets, header.nameOff]
    exact List.forall_mem_singleton.mpr formed
  · rw [info, zero]
  · rw [recordOf, info, encodes, bits, header.nameOff, header.sizeOrType, text]

theorem qualified_encoded {qualifier : Qualifier} {qualified : UInt32} :
    ReadBack data strings start off (.qualified qualifier qualified) := by
  intro words named
  cases qualifier with
  | const =>
    have header := header_alone (by decide) words
    refine ⟨.const, header.known, rfl, List.forall_mem_nil _, (absurd · (by decide)), ?_⟩
    rw [recordOf, header.sizeOrType]
  | volatile =>
    have header := header_alone (by decide) words
    refine ⟨.volatile, header.known, rfl, List.forall_mem_nil _, (absurd · (by decide)), ?_⟩
    rw [recordOf, header.sizeOrType]
  | restrict =>
    have header := header_alone (by decide) words
    refine ⟨.restrict, header.known, rfl, List.forall_mem_nil _, (absurd · (by decide)), ?_⟩
    rw [recordOf, header.sizeOrType]

theorem array_encoded {numberOfElements : UInt64} {element : UInt32}
    (encodable : (Record.array numberOfElements element).Encodable) :
    ReadBack data strings start off (.array numberOfElements element) := by
  intro words named
  obtain ⟨header, words⟩ := header_words (by decide) (by decide) words
  obtain ⟨first, words⟩ := u32At_words words
  obtain ⟨second, words⟩ := u32At_words words
  obtain ⟨third, _⟩ := u32At_words words
  have read : arrayAt data (start + 12) = ⟨element, 0, numberOfElements.toUInt32⟩ := by
    rw [arrayAt, first, second, third]
  refine ⟨.array, header.known, rfl, List.forall_mem_nil _, (absurd · (by decide)), ?_⟩
  rw [recordOf, read, toUInt32_toUInt64 encodable]

theorem structUnion_encoded {kind : StructUnion.Kind} {name : String} {bytesize : UInt64}
    {members : List RawMember}
    (encodable : (Record.structUnion kind name bytesize members).Encodable) :
    ReadBack data strings start off (.structUnion kind name bytesize members) := by
  intro words named
  obtain ⟨shape, bytes, count, fit⟩ := encodable
  have low : (if kind = .union then 5 else 4) < 32 := by split <;> decide
  obtain ⟨header, words⟩ := header_words low count words
  obtain ⟨formed, text⟩ := named.head
  obtain ⟨read, names⟩ := members_encoded (membersFit fit) words named.tail
  have length : 12 + 12 * members.length =
      4 * ((Record.structUnion kind name bytesize members).words off).length := by
    simp only [Record.words, headerWords, List.length_append, List.length_cons, List.length_nil,
      memberWords_length]
    omega
  cases kind with
  | class_ => exact absurd rfl shape
  | struct =>
    refine ⟨.struct, header.known, ?_, ?_, (absurd · (by decide)), ?_⟩
    · rw [← length, BtfType.payloadSize, header.vlen]
    · rw [nameOffsets, header.vlen, header.nameOff]
      exact List.forall_mem_cons.mpr ⟨formed, names⟩
    · rw [recordOf, header.vlen, header.nameOff, header.kflag, header.sizeOrType, text, read,
        toUInt32_toUInt64 bytes]
  | union =>
    refine ⟨.union, header.known, ?_, ?_, (absurd · (by decide)), ?_⟩
    · rw [← length, BtfType.payloadSize, header.vlen]
    · rw [nameOffsets, header.vlen, header.nameOff]
      exact List.forall_mem_cons.mpr ⟨formed, names⟩
    · rw [recordOf, header.vlen, header.nameOff, header.kflag, header.sizeOrType, text, read,
        toUInt32_toUInt64 bytes]

theorem enumDeclaration_encoded {name : String} :
    ReadBack data strings start off (.enum name none) := by
  intro words named
  have header := header_alone (by decide) words
  obtain ⟨formed, text⟩ := named.head
  refine ⟨.enum, header.known, ?_, ?_, (absurd · (by decide)), ?_⟩
  · rw [BtfType.payloadSize, header.vlen]
    rfl
  · rw [nameOffsets, header.vlen, header.nameOff]
    exact List.forall_mem_cons.mpr ⟨formed, List.forall_mem_nil _⟩
  · rw [recordOf, header.vlen, header.nameOff, text]
    rfl

theorem enum_encoded {name : String} {definition : Enumeration.Definition}
    (encodable : (Record.enum name (some definition)).Encodable) :
    ReadBack data strings start off (.enum name (some definition)) := by
  intro words named
  obtain ⟨bytesize, enumerators⟩ := definition
  obtain ⟨some_, count, fit⟩ := encodable
  obtain ⟨header, words⟩ := header_words (by decide) count words
  obtain ⟨formed, text⟩ := named.head
  obtain ⟨read, names⟩ := enumerators_encoded fit words named.tail
  refine ⟨.enum, header.known, ?_, ?_, (absurd · (by decide)), ?_⟩
  · rw [BtfType.payloadSize, header.vlen]
    simp only [Record.words, headerWords, List.length_append, List.length_cons, List.length_nil,
      enumeratorWords_length]
    omega
  · rw [nameOffsets, header.vlen, header.nameOff]
    exact List.forall_mem_cons.mpr ⟨formed, names⟩
  · rw [recordOf, header.vlen, header.nameOff, header.sizeOrType, text, read, if_pos]
    exact fun none_ => some_ (List.length_eq_zero_iff.mp none_)

theorem forward_encoded {kind : StructUnion.Kind} {name : String}
    (encodable : (Record.forward kind name).Encodable) :
    ReadBack data strings start off (.forward kind name) := by
  intro words named
  have header := header_alone (by decide) words
  obtain ⟨formed, text⟩ := named.head
  refine ⟨.fwd, header.known, rfl, ?_, (absurd · (by decide)), ?_⟩
  · rw [nameOffsets, header.nameOff]
    exact List.forall_mem_singleton.mpr formed
  · rw [recordOf, header.nameOff, header.kflag, text]
    cases kind with
    | class_ => exact absurd rfl encodable
    | struct => rfl
    | union => rfl

theorem symbol_encoded {symbolType : ElfSymbol.SymbolType} {name : String} {referred : UInt32}
    (encodable : (Record.symbol symbolType name referred).Encodable) :
    ReadBack data strings start off (.symbol symbolType name referred) := by
  intro words named
  rcases encodable with rfl | rfl
  · have header := header_alone (by decide) words
    obtain ⟨formed, text⟩ := named.head
    refine ⟨.func, header.known, rfl, ?_, (absurd · (by decide)), ?_⟩
    · rw [nameOffsets, header.nameOff]
      exact List.forall_mem_singleton.mpr formed
    · rw [recordOf, header.nameOff, header.sizeOrType, text]
  · obtain ⟨header, _⟩ := header_words (by decide) (by decide) words
    obtain ⟨formed, text⟩ := named.head
    refine ⟨.var, header.known, rfl, ?_, (absurd · (by decide)), ?_⟩
    · rw [nameOffsets, header.nameOff]
      exact List.forall_mem_singleton.mpr formed
    · rw [recordOf, header.nameOff, header.sizeOrType, text]

theorem funcProto_encoded {returnType : UInt32} {parameters : List RawParameter}
    (encodable : (Record.funcProto returnType parameters).Encodable) :
    ReadBack data strings start off (.funcProto returnType parameters) := by
  intro words named
  have count : parameters.length < 2 ^ 16 := encodable
  obtain ⟨header, words⟩ := header_words (by decide) count words
  obtain ⟨read, names⟩ := parameters_encoded words named
  refine ⟨.funcProto, header.known, ?_, ?_, (absurd · (by decide)), ?_⟩
  · rw [BtfType.payloadSize, header.vlen]
    simp only [Record.words, headerWords, List.length_append, List.length_cons, List.length_nil,
      parameterWords_length]
    omega
  · rw [nameOffsets, header.vlen]
    exact names
  · rw [recordOf, header.vlen, header.sizeOrType, read]

theorem record_encoded {record : Record} (encodable : record.Encodable) :
    ReadBack data strings start off record := by
  intro words named
  cases record with
  | int name encoding bitsize bytesize => exact int_encoded encodable words named
  | ptr pointee =>
    have header := header_alone (by decide) words
    refine ⟨.ptr, header.known, rfl, List.forall_mem_nil _, (absurd · (by decide)), ?_⟩
    rw [recordOf, header.sizeOrType]
  | typedef name referred =>
    have header := header_alone (by decide) words
    obtain ⟨formed, text⟩ := named.head
    refine ⟨.typedef, header.known, rfl, ?_, (absurd · (by decide)), ?_⟩
    · rw [nameOffsets, header.nameOff]
      exact List.forall_mem_singleton.mpr formed
    · rw [recordOf, header.nameOff, header.sizeOrType, text]
  | qualified qualifier qualified => exact qualified_encoded words named
  | array numberOfElements element => exact array_encoded encodable words named
  | structUnion kind name bytesize members => exact structUnion_encoded encodable words named
  | enum name definition =>
    cases definition with
    | none => exact enumDeclaration_encoded words named
    | some definition => exact enum_encoded encodable words named
  | forward kind name => exact forward_encoded encodable words named
  | symbol symbolType name referred => exact symbol_encoded encodable words named
  | funcProto returnType parameters => exact funcProto_encoded encodable words named
  | datasec =>
    have header := header_alone (by decide) words
    refine ⟨.datasec, header.known, ?_, List.forall_mem_nil _, (absurd · (by decide)), rfl⟩
    rw [BtfType.payloadSize, header.vlen]
    rfl

end

/- Whole inputs. -/

/-- The words of records whose names follow each other from an offset on. -/
def encodeWords : Nat → List Record → List UInt32
  | _, [] => []
  | off, record :: records =>
    record.words off ++ encodeWords (off + (record.names.flatMap nameBytes).length) records

def allNames (records : List Record) : List String := records.flatMap Record.names

/-- The string section: the empty name, then each name where it is needed. -/
def encodeStrings (records : List Record) : List UInt8 := 0 :: (allNames records).flatMap nameBytes

def encode (records : List Record) : List UInt8 :=
  assemble (encodeWords 1 records) (encodeStrings records)

/-- The records can be written out as an input. -/
structure Encodable (records : List Record) : Prop where
  each : ∀ record ∈ records, record.Encodable
  spelt : ∀ name ∈ allNames records, Spelt name
  distinct : (records.filterMap Record.symbolName).Nodup
  types : 4 * (encodeWords 1 records).length < 2 ^ 32
  strings : (encodeStrings records).length < 2 ^ 32

instance : DecidablePred Encodable := fun records =>
  decidable_of_iff ((∀ record ∈ records, record.Encodable) ∧
    (∀ name ∈ allNames records, Spelt name) ∧
      (records.filterMap Record.symbolName).Nodup ∧ 4 * (encodeWords 1 records).length < 2 ^ 32 ∧
      (encodeStrings records).length < 2 ^ 32)
    ⟨fun ⟨each, spelt, distinct, types, strings⟩ => ⟨each, spelt, distinct, types, strings⟩,
      fun ⟨each, spelt, distinct, types, strings⟩ => ⟨each, spelt, distinct, types, strings⟩⟩

section

variable {data : List UInt8} {strings : MemoryRange} {start off : Nat} {records : List Record}

theorem records_encoded (each : ∀ record ∈ records, record.Encodable)
    (words : At data start ((encodeWords off records).flatMap word))
    (named : NamesAt data strings off (allNames records)) :
    FormedRecords data strings start (start + 4 * (encodeWords off records).length) records := by
  induction records generalizing start off with
  | nil => exact .nil start
  | cons record records ih =>
    obtain ⟨own, each⟩ := List.forall_mem_cons.mp each
    rw [encodeWords, List.flatMap_append] at words
    rw [allNames, List.flatMap_cons] at named
    obtain ⟨kind, encoded⟩ := record_encoded own words.left named.left
    have size := encoded.size
    have rest := ih each (words.right_of_length (words_length _)) named.right
    have same : start + 4 * (record.words off).length +
        4 * (encodeWords (off + (record.names.flatMap nameBytes).length) records).length =
        start + 4 * (encodeWords off (record :: records)).length := by
      rw [encodeWords, List.length_append]
      omega
    rw [same, ← size, ← Nat.add_assoc] at rest
    have formed : RecordFormed data strings
        (start + 4 * (encodeWords off (record :: records)).length)
        start kind := by
      refine ⟨encoded.known, ?_, encoded.names, encoded.bits⟩
      rw [← same]
      omega
    have first := FormedRecords.cons formed rest
    rwa [encoded.read] at first

end

/-- The header and the sections of an input that has been put together. -/
structure Assembled (types : List UInt32) (strings data : List UInt8) : Prop where
  length : data.length = 24 + 4 * types.length + strings.length
  magic : bytesAt data 0 2 = [0x9F, 0xEB]
  header : headerAt data =
    ⟨24, 0, (4 * types.length).toUInt32, (4 * types.length).toUInt32, strings.length.toUInt32⟩
  typesAt : At data 24 (types.flatMap word)
  stringsAt : At data (24 + 4 * types.length) strings

theorem assembled (types : List UInt32) (strings : List UInt8) :
    Assembled types strings (assemble types strings) := by
  let words : List UInt32 :=
    [24, 0, (4 * types.length).toUInt32, (4 * types.length).toUInt32, strings.length.toUInt32]
  have made : assemble types strings =
      [0x9F, 0xEB] ++ ([1, 0] ++ words.flatMap word ++ types.flatMap word ++ strings) := rfl
  have magic : At (assemble types strings) 0 [0x9F, 0xEB] := by
    rw [made]
    exact at_append [] _ _
  have start : ([0x9F, 0xEB] ++ [1, 0] ++ words.flatMap word).length = 24 := by
    rw [List.length_append, words_length]
    rfl
  have header : At (assemble types strings) 4 (words.flatMap word) := by
    have here := at_append [0x9F, 0xEB, 1, 0] (words.flatMap word) (types.flatMap word ++ strings)
    rwa [List.append_assoc, ← List.append_assoc (words.flatMap word)] at here
  obtain ⟨hdrLen, header⟩ := u32At_words header
  obtain ⟨typeOff, header⟩ := u32At_words header
  obtain ⟨typeLen, header⟩ := u32At_words header
  obtain ⟨strOff, header⟩ := u32At_words header
  obtain ⟨strLen, _⟩ := u32At_words header
  refine ⟨?_, magic.take rfl, by rw [headerAt, hdrLen, typeOff, typeLen, strOff, strLen], ?_, ?_⟩
  · rw [made, ← List.append_assoc, ← List.append_assoc, ← List.append_assoc, List.length_append,
      List.length_append, start, words_length]
  · have here := at_append ([0x9F, 0xEB] ++ [1, 0] ++ words.flatMap word)
      (types.flatMap word) strings
    rwa [start] at here
  · have here := at_append ([0x9F, 0xEB] ++ [1, 0] ++ words.flatMap word ++ types.flatMap word)
      strings []
    rwa [List.append_nil, List.length_append, start, words_length] at here

theorem encodeStrings_last (records : List Record) :
    (encodeStrings records)[(encodeStrings records).length - 1]? = some 0 := by
  have ends (names : List String) : ∃ before, 0 :: names.flatMap nameBytes = before ++ [0] := by
    rcases List.eq_nil_or_concat names with rfl | ⟨names, name, rfl⟩
    · exact ⟨[], rfl⟩
    · refine ⟨0 :: (names.flatMap nameBytes ++ name.toList.map fun c => c.toNat.toUInt8), ?_⟩
      rw [List.concat_eq_append, List.flatMap_append, List.flatMap_singleton, nameBytes,
        List.cons_append,
        List.append_assoc]
  obtain ⟨before, same⟩ := ends (allNames records)
  rw [encodeStrings, same, List.length_append, List.length_singleton, Nat.add_sub_cancel]
  exact List.getElem?_concat_length

section

variable {records : List Record} (encodable : Encodable records)

include encodable

theorem encode_typeSection :
    (headerAt (encode records)).typeSection = ⟨24, 24 + 4 * (encodeWords 1 records).length⟩ := by
  have input := assembled (encodeWords 1 records) (encodeStrings records)
  rw [encode, input.header, BtfHeader.typeSection]
  show MemoryRange.mk 24 (24 + (4 * (encodeWords 1 records).length).toUInt32.toNat) = _
  rw [toNat_toUInt32 encodable.types]

theorem encode_stringSection :
    (headerAt (encode records)).stringSection = ⟨24 + 4 * (encodeWords 1 records).length,
      24 + 4 * (encodeWords 1 records).length + (encodeStrings records).length⟩ := by
  have input := assembled (encodeWords 1 records) (encodeStrings records)
  rw [encode, input.header, BtfHeader.stringSection]
  show MemoryRange.mk (24 + (4 * (encodeWords 1 records).length).toUInt32.toNat)
    (24 + (4 * (encodeWords 1 records).length).toUInt32.toNat +
      (encodeStrings records).length.toUInt32.toNat) = _
  rw [toNat_toUInt32 encodable.types, toNat_toUInt32 encodable.strings]

theorem encode_sections : (headerAt (encode records)).Formed (encode records) := by
  have input := assembled (encodeWords 1 records) (encodeStrings records)
  have types := encode_typeSection encodable
  have strings := encode_stringSection encodable
  have hdrLen : (headerAt (encode records)).hdrLen.toNat = 24 := by
    rw [encode, input.header]
    rfl
  refine ⟨hdrLen.ge, ?_, ?_, ?_, ?_, ?_⟩
  · rw [hdrLen, types]
  · rw [types]
    exact Nat.le_add_right _ _
  · rw [types, strings]
  · rw [strings]
    exact Nat.le_add_right _ _
  · rw [strings, encode, input.length]

/-- The first name is after the empty one. -/
theorem encode_names :
    NamesAt (encode records) (headerAt (encode records)).stringSection 1 (allNames records) := by
  have input := assembled (encodeWords 1 records) (encodeStrings records)
  have table := @At.right _ _ [0] _ _ input.stringsAt
  have length : (encodeStrings records).length =
      ((allNames records).flatMap nameBytes).length + 1 := rfl
  have strings := encodable.strings
  rw [encode_stringSection encodable]
  refine ⟨table, ?_, by omega, encodable.spelt⟩
  dsimp only
  omega

theorem encode_formed : FormedRecords (encode records) (headerAt (encode records)).stringSection
    (headerAt (encode records)).typeSection.start (headerAt (encode records)).typeSection.limit
      records := by
  have input := assembled (encodeWords 1 records) (encodeStrings records)
  have read := records_encoded encodable.each input.typesAt (encode_names encodable)
  rw [encode_typeSection encodable]
  exact read

theorem encode_acceptable (verbose : Bool) : Acceptable (encode records) verbose := by
  have input := assembled (encodeWords 1 records) (encodeStrings records)
  have filled : 0 < (encodeStrings records).length := Nat.succ_pos _
  refine ⟨?_, ?_, encode_sections encodable, ?_,
    ⟨records, encode_formed encodable, encodable.distinct⟩,
    fun _ => .inr ?_⟩
  · rw [encode, input.length]
    omega
  · rw [encode, input.magic]
    rfl
  · rw [encode, input.header]
    show (0 : UInt32) &&& (4 - 1) = 0
    decide
  · have last := input.stringsAt.getElem? (Nat.sub_lt filled Nat.one_pos)
    rw [encodeStrings_last] at last
    rw [encode_stringSection encodable, ← last]
    show (encode records)[24 + 4 * (encodeWords 1 records).length +
      (encodeStrings records).length - 1]? = _
    rw [Nat.add_sub_assoc filled]
    rfl

end

section

variable {data : List UInt8} {strings : MemoryRange} {start limit : Nat}
  {records records' : List Record}

theorem FormedRecords.tiles (formed : FormedRecords data strings start limit records) :
    Records data strings start limit records := by
  induction formed with
  | nil limit => exact .nil limit
  | cons formed rest ih =>
    refine .cons (by rw [recordAt, formed.known]; rfl) ?_
    rwa [BtfType.size, formed.known, ← Nat.add_assoc]

/-- A stretch is read as a sequence of records in one way only. -/
theorem Records.unique (tiled : Records data strings start limit records)
    (tiled' : Records data strings start limit records') : records' = records := by
  induction tiled generalizing records' with
  | nil limit =>
    cases tiled' with
    | nil => rfl
    | cons said rest =>
      have := (Records.cons said rest).le
      rw [List.length_cons] at this
      omega
  | cons said rest ih =>
    cases tiled' with
    | nil =>
      have := (Records.cons said rest).le
      rw [List.length_cons] at this
      omega
    | cons said' rest' =>
      cases said.symm.trans said'
      rw [ih rest']

end

/-- Records that are written out are read back: the reader accepts them, and each of them
defines the node of its position. -/
theorem process_encode {records : List Record} (encodable : Encodable records) (base : Graph)
    (verbose : Bool) {fuel : Nat} (enough : (encode records).length < fuel) :
    ∃ root s, (process (encode records) fuel verbose).run { graph := base } = .ok root s ∧
      LinkedByPosition (encode records) base records root s := by
  have acceptable := encode_acceptable encodable verbose
  have formed := encode_formed encodable
  obtain ⟨root, s, ran⟩ :=
    (process_decides (encode records) base verbose enough).returns_iff.mpr acceptable
  obtain ⟨records', linked, finished⟩ :=
    (process_ends (encode records) base verbose enough).returns ran
  have same := formed.tiles.unique finished.sectioned
  subst same
  exact ⟨root, s, ran, finished.linkedByPosition⟩

def listName : String := "list_t"

/-- A list of integers, an array of them, and a function that takes it. -/
def someRecords : List Record :=
  [.structUnion .struct "list" 16 [⟨"next", 2, 0, 0⟩, ⟨"flag", 3, 64, 3⟩, ⟨"", 5, 72, 0⟩], .ptr 1,
    .int "int" .signedInteger 32 4, .qualified .const 3, .array 10 4,
    .enum "colour" (some ⟨4, [("red", 0), ("blue", -1)]⟩), .enum "later" none, .forward .union "u",
    .typedef listName 1, .funcProto 0 [⟨"head", 2⟩, ⟨"", 0⟩], .symbol .function "f" 10,
    .symbol .object "v" 6, .datasec]

theorem someRecords_encodable : Encodable someRecords := by decide

theorem process_encode_someRecords :
    ∃ root s, (process (encode someRecords) 1000 true).run { graph := ⟨[some .void]⟩ } = .ok root s ∧
      LinkedByPosition (encode someRecords) ⟨[some .void]⟩ someRecords root s :=
  process_encode someRecords_encodable ⟨[some .void]⟩ true (by decide +kernel)

end Stg.Btf
