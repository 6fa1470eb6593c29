import Stg.Btf.Records
import Stg.Lib.Ends

set_option autoImplicit false

/- Reads of the input: they change nothing but the record of the reads, each stays
inside the part of the input that it is made for, and what is read is what is there. -/
namespace Stg.Btf

/-- The input with its two sections, which lie inside it. -/
structure Input where
  data : List UInt8
  types : MemoryRange
  strings : MemoryRange
  typesInside : types.limit ≤ data.length
  stringsInside : strings.limit ≤ data.length

/-- The read stays inside the part of the input it is made for. -/
def Input.Allows (input : Input) (access : Access) : Prop :=
  access.offset + access.size ≤ input.data.length ∧
    match access.region with
    | .header => access.offset + access.size ≤ 24
    | .types => input.types.start ≤ access.offset ∧
        access.offset + access.size ≤ input.types.limit
    | .strings => input.strings.start ≤ access.offset ∧
        access.offset + access.size ≤ input.strings.limit

theorem Input.allows_types (input : Input) (offset size : Nat)
    (after : input.types.start ≤ offset) (before : offset + size ≤ input.types.limit) :
    input.Allows ⟨.types, offset, size⟩ :=
  ⟨before.trans input.typesInside, after, before⟩

theorem Input.allows_strings (input : Input) (offset size : Nat)
    (after : input.strings.start ≤ offset) (before : offset + size ≤ input.strings.limit) :
    input.Allows ⟨.strings, offset, size⟩ :=
  ⟨before.trans input.stringsInside, after, before⟩

/-- How the reader may fail: with an exception, though never the one of `Graph::Set`. -/
def Thrown (reason : Error) : Prop :=
  ∃ message, reason = .exception message ∧ message ≠ "node value already set"

/-- The state is the earlier one but for reads that are allowed. -/
def Untouched (allowed : Access → Prop) (before s : Structs) : Prop :=
  ∃ reads, s = { before with reads := reads } ∧ ∀ access ∈ reads, allowed access

/-- The call only reads. -/
def Peeks {α : Type} (allowed : Access → Prop) (before s : Structs) (call : Reading α)
    (fact : α → Prop) : Prop :=
  call.Ends s (fun value s' => Untouched allowed before s' ∧ fact value)
    (fun reason s' => Thrown reason ∧ Untouched allowed before s')

section

variable {allowed : Access → Prop} {before s : Structs} {data : List UInt8} {α β : Type}

theorem Peeks.bind {call : Reading α} {rest : α → Reading β} {fact : α → Prop} {fact' : β → Prop}
    (first : Peeks allowed before s call fact)
    (second : ∀ value s', Untouched allowed before s' → fact value →
      Peeks allowed before s' (rest value) fact') :
    Peeks allowed before s (call >>= rest) fact' := by
  apply EStateM.Ends.bind first
  rintro value s' ⟨untouched, holds⟩
  exact second value s' untouched holds

theorem Peeks.pure {value : α} {fact : α → Prop} (untouched : Untouched allowed before s)
    (holds : fact value) : Peeks allowed before s (Pure.pure value) fact :=
  EStateM.Ends.pure ⟨untouched, holds⟩

theorem check_peeks (untouched : Untouched allowed before s) {ok : Bool} {message : String}
    (other : message ≠ "node value already set") :
    Peeks allowed before s (check ok message) (fun _ => ok = true) := by
  unfold check
  split
  · rename_i holds
    exact ⟨untouched, holds⟩
  · exact ⟨⟨message, rfl, other⟩, untouched⟩

theorem fetch_peeks (untouched : Untouched allowed before s) {region : Region} {offset size : Nat}
    (permitted : allowed ⟨region, offset, size⟩) (inside : offset + size ≤ data.length) :
    Peeks allowed before s (fetch data region offset size)
      (fun bytes => bytes = bytesAt data offset size) := by
  obtain ⟨reads, rfl, each⟩ := untouched
  have later : Untouched allowed before
      { before with reads := ⟨region, offset, size⟩ :: reads } := by
    refine ⟨_, rfl, ?_⟩
    intro access among
    rcases List.mem_cons.mp among with rfl | among
    · exact permitted
    · exact each access among
  have noted : Peeks allowed before { before with reads := reads }
      (modify fun s => { s with reads := ⟨region, offset, size⟩ :: s.reads }) (fun _ => True) :=
    EStateM.Ends.modified ⟨later, trivial⟩
  unfold fetch
  apply noted.bind
  intro _ s' untouched' _
  rw [if_pos inside]
  exact Peeks.pure untouched' rfl

theorem u32_peeks (untouched : Untouched allowed before s) {region : Region} {offset : Nat}
    (permitted : allowed ⟨region, offset, 4⟩) (inside : offset + 4 ≤ data.length) :
    Peeks allowed before s (u32 data region offset) (fun value => value = u32At data offset) := by
  unfold u32
  apply (fetch_peeks untouched permitted inside).bind
  rintro bytes s' untouched' rfl
  exact Peeks.pure untouched' rfl

theorem pull_peeks (untouched : Untouched allowed before s) (memory : MemoryRange)
    (size count : Nat) :
    Peeks allowed before s (memory.pull size count) (fun pulled =>
      pulled = (memory.start, ⟨memory.start + size * count, memory.limit⟩) ∧
        memory.start + size * count ≤ memory.limit) := by
  unfold MemoryRange.pull
  apply (check_peeks untouched (by decide)).bind
  intro _ s' untouched' ok
  exact Peeks.pure untouched' ⟨rfl, of_decide_eq_true ok⟩

end

section

variable {input : Input} {before s : Structs} {α : Type}

/-- A word of the type section. -/
theorem word_peeks (untouched : Untouched input.Allows before s) (offset : Nat)
    (after : input.types.start ≤ offset) (within : offset + 4 ≤ input.types.limit) :
    Peeks input.Allows before s (u32 input.data .types offset)
      (fun value => value = u32At input.data offset) :=
  u32_peeks untouched (input.allows_types offset 4 after within)
    (within.trans input.typesInside)

/-- A structure of three words. -/
theorem readWords_peeks (make : UInt32 → UInt32 → UInt32 → α)
    (untouched : Untouched input.Allows before s) {offset : Nat}
    (after : input.types.start ≤ offset) (within : offset + 12 ≤ input.types.limit) :
    Peeks input.Allows before s
      (do
        let first ← u32 input.data .types offset
        let second ← u32 input.data .types (offset + 4)
        let third ← u32 input.data .types (offset + 8)
        return make first second third)
      (fun value => value = make (u32At input.data offset) (u32At input.data (offset + 4))
        (u32At input.data (offset + 8))) := by
  apply (word_peeks untouched offset after (by omega)).bind
  rintro _ s₁ untouched₁ rfl
  apply (word_peeks untouched₁ (offset + 4) (by omega) (by omega)).bind
  rintro _ s₂ untouched₂ rfl
  apply (word_peeks untouched₂ (offset + 8) (by omega) (by omega)).bind
  rintro _ s₃ untouched₃ rfl
  exact Peeks.pure untouched₃ rfl

theorem readType_peeks (untouched : Untouched input.Allows before s) {t : Nat}
    (after : input.types.start ≤ t) (within : t + 12 ≤ input.types.limit) :
    Peeks input.Allows before s (readType input.data t)
      (fun value => value = typeAt input.data t) :=
  readWords_peeks BtfType.mk untouched after within

theorem readArray_peeks (untouched : Untouched input.Allows before s) {array : Nat}
    (after : input.types.start ≤ array) (within : array + 12 ≤ input.types.limit) :
    Peeks input.Allows before s (readArray input.data array)
      (fun value => value = arrayAt input.data array) :=
  readWords_peeks BtfArray.mk untouched after within

theorem readMember_peeks (untouched : Untouched input.Allows before s) {member : Nat}
    (after : input.types.start ≤ member) (within : member + 12 ≤ input.types.limit) :
    Peeks input.Allows before s (readMember input.data member)
      (fun value => value = memberAt input.data member) :=
  readWords_peeks BtfMember.mk untouched after within

/-- A structure of two words. -/
theorem readPair_peeks (make : UInt32 → UInt32 → α) (untouched : Untouched input.Allows before s)
    {offset : Nat} (after : input.types.start ≤ offset) (within : offset + 8 ≤ input.types.limit) :
    Peeks input.Allows before s
      (do
        let first ← u32 input.data .types offset
        let second ← u32 input.data .types (offset + 4)
        return make first second)
      (fun value => value = make (u32At input.data offset) (u32At input.data (offset + 4))) := by
  apply (word_peeks untouched offset after (by omega)).bind
  rintro _ s₁ untouched₁ rfl
  apply (word_peeks untouched₁ (offset + 4) (by omega) (by omega)).bind
  rintro _ s₂ untouched₂ rfl
  exact Peeks.pure untouched₂ rfl

theorem readEnum_peeks (untouched : Untouched input.Allows before s) {enum : Nat}
    (after : input.types.start ≤ enum) (within : enum + 8 ≤ input.types.limit) :
    Peeks input.Allows before s (readEnum input.data enum)
      (fun value => value = enumAt input.data enum) :=
  readPair_peeks BtfEnum.mk untouched after within

theorem readParam_peeks (untouched : Untouched input.Allows before s) {param : Nat}
    (after : input.types.start ≤ param) (within : param + 8 ≤ input.types.limit) :
    Peeks input.Allows before s (readParam input.data param)
      (fun value => value = paramAt input.data param) :=
  readPair_peeks BtfParam.mk untouched after within

/-- The search stays below its end; the bytes that it passes are not null. -/
theorem findNull_peeks (untouched : Untouched input.Allows before s) {count position : Nat}
    (after : input.strings.start ≤ position) (within : position + count ≤ input.strings.limit) :
    Peeks input.Allows before s (findNull input.data count position) (fun found =>
      position ≤ found ∧ found ≤ position + count ∧
        (found < position + count →
          (input.data.drop position).takeWhile (· ≠ 0) =
            bytesAt input.data position (found - position))) := by
  induction count generalizing position s with
  | zero =>
    exact Peeks.pure untouched
      ⟨le_refl _, le_refl _, fun below => absurd below (lt_irrefl _)⟩
  | succ count ih =>
    have permitted := input.allows_strings position 1 after (by omega)
    have inside : position < input.data.length := permitted.1
    have cut : input.data.drop position = input.data[position] :: input.data.drop (position + 1) :=
      List.drop_eq_getElem_cons inside
    have read : bytesAt input.data position 1 = [input.data[position]] := by
      rw [bytesAt, cut]
      rfl
    unfold findNull
    apply (fetch_peeks untouched permitted inside).bind
    rintro _ s₁ untouched₁ rfl
    split
    · rename_i null
      rw [read] at null
      have zero : input.data[position] = 0 := List.head_eq_of_cons_eq null
      apply Peeks.pure untouched₁
      refine ⟨le_refl _, by omega, fun _ => ?_⟩
      rw [cut, zero, bytesAt]
      simp
    · rename_i other
      rw [read] at other
      have nonzero : input.data[position] ≠ 0 := fun zero => other (by rw [zero])
      have later : input.strings.start ≤ position + 1 := by omega
      apply (ih untouched₁ later (by omega)).imp
      · rintro found s₂ ⟨untouched₂, low, high, spelt⟩
        refine ⟨untouched₂, by omega, by omega, fun below => ?_⟩
        have rest := spelt (by omega)
        have more : found - position = (found - (position + 1)) + 1 := by omega
        rw [cut, List.takeWhile_cons_of_pos (by simpa using nonzero), rest, bytesAt, bytesAt, cut,
          more, List.take_succ_cons]
      · exact fun _ _ raised => raised

theorem getName_peeks (untouched : Untouched input.Allows before s) (nameOff : UInt32) :
    Peeks input.Allows before s (getName input.data input.strings nameOff)
      (fun name => name = nameAt input.data input.strings nameOff) := by
  unfold getName
  apply (check_peeks untouched (by decide)).bind
  intro _ s₁ untouched₁ inside
  have inside := of_decide_eq_true inside
  apply (findNull_peeks untouched₁ (by omega) (by omega)).bind
  rintro nameEnd s₂ untouched₂ ⟨low, high, spelt⟩
  apply (check_peeks untouched₂ (by decide)).bind
  intro _ s₃ untouched₃ ended
  have ended := of_decide_eq_true ended
  have permitted := input.allows_strings (input.strings.start + nameOff.toNat)
    (nameEnd - (input.strings.start + nameOff.toNat)) (by omega) (by omega)
  apply (fetch_peeks untouched₃ permitted permitted.1).bind
  rintro _ s₄ untouched₄ rfl
  apply Peeks.pure untouched₄
  rw [nameAt, spelt (by omega)]

/-- The verbose listing of the string section. -/
theorem printStrings_peeks {fuel start : Nat} (untouched : Untouched input.Allows before s)
    (after : input.strings.start ≤ start) (within : start ≤ input.strings.limit)
    (enough : input.strings.limit - start < fuel) :
    Peeks input.Allows before s (printStrings input.data fuel ⟨start, input.strings.limit⟩)
      (fun _ => True) := by
  induction fuel generalizing start s with
  | zero => omega
  | succ fuel ih =>
    unfold printStrings
    split
    · exact Peeks.pure untouched trivial
    · dsimp only
      apply (findNull_peeks untouched after (by omega)).bind
      rintro position s₁ untouched₁ ⟨low, high, _⟩
      apply (check_peeks untouched₁ (by decide)).bind
      intro _ s₂ untouched₂ found
      have found := of_decide_eq_true found
      apply (pull_peeks untouched₂ _ 1 _).bind
      rintro _ s₃ untouched₃ ⟨rfl, inside⟩
      dsimp only at found inside ⊢
      have permitted := input.allows_strings start (position - start) after (by omega)
      apply (fetch_peeks untouched₃ permitted permitted.1).bind
      intro _ s₄ untouched₄ _
      exact ih untouched₄ (by omega) inside (by omega)

end

/- The header. -/

def headerAt (data : List UInt8) : BtfHeader :=
  ⟨u32At data 4, u32At data 8, u32At data 12, u32At data 16, u32At data 20⟩

/-- The sections follow the header, in order, and lie inside the input. -/
structure BtfHeader.Formed (header : BtfHeader) (data : List UInt8) : Prop where
  headerEnd : 24 ≤ header.hdrLen.toNat
  types : header.hdrLen.toNat ≤ header.typeSection.start
  typesEnd : header.typeSection.start ≤ header.typeSection.limit
  strings : header.typeSection.limit ≤ header.stringSection.start
  stringsEnd : header.stringSection.start ≤ header.stringSection.limit
  inside : header.stringSection.limit ≤ data.length

/-- A read of the header before anything else is known. -/
def HeaderAccess (data : List UInt8) (access : Access) : Prop :=
  access.region = .header ∧ access.offset + access.size ≤ 24 ∧
    access.offset + access.size ≤ data.length

section

variable {data : List UInt8} {before s : Structs}

theorem headerWord_peeks (untouched : Untouched (HeaderAccess data) before s) (offset : Nat)
    (within : offset + 4 ≤ 24) (long : 24 ≤ data.length) :
    Peeks (HeaderAccess data) before s (u32 data .header offset)
      (fun value => value = u32At data offset) :=
  u32_peeks untouched ⟨rfl, within, within.trans long⟩ (within.trans long)

theorem headerBytes_peeks (untouched : Untouched (HeaderAccess data) before s) (offset size : Nat)
    (within : offset + size ≤ 24) (long : 24 ≤ data.length) :
    Peeks (HeaderAccess data) before s (fetch data .header offset size)
      (fun bytes => bytes = bytesAt data offset size) :=
  fetch_peeks untouched ⟨rfl, within, within.trans long⟩ (within.trans long)

theorem printHeader_peeks (untouched : Untouched (HeaderAccess data) before s)
    (long : 24 ≤ data.length) :
    Peeks (HeaderAccess data) before s (printHeader data) (fun _ => True) := by
  unfold printHeader
  apply (headerBytes_peeks untouched 0 2 (by decide) long).bind
  intro _ s₁ untouched₁ _
  apply (headerBytes_peeks untouched₁ 2 1 (by decide) long).bind
  intro _ s₂ untouched₂ _
  apply (headerBytes_peeks untouched₂ 3 1 (by decide) long).bind
  intro _ s₃ untouched₃ _
  apply (headerWord_peeks untouched₃ 4 (by decide) long).bind
  intro _ s₄ untouched₄ _
  apply (headerWord_peeks untouched₄ 8 (by decide) long).bind
  intro _ s₅ untouched₅ _
  apply (headerWord_peeks untouched₅ 12 (by decide) long).bind
  intro _ s₆ untouched₆ _
  apply (headerWord_peeks untouched₆ 16 (by decide) long).bind
  intro _ s₇ untouched₇ _
  apply (headerWord_peeks untouched₇ 20 (by decide) long).bind
  intro _ s₈ untouched₈ _
  exact Peeks.pure untouched₈ trivial

theorem readHeader_peeks (untouched : Untouched (HeaderAccess data) before s) (verbose : Bool) :
    Peeks (HeaderAccess data) before s (readHeader data verbose)
      (fun header => header = headerAt data) := by
  unfold readHeader
  apply (check_peeks untouched (by decide)).bind
  intro _ s₁ untouched₁ long
  have long := of_decide_eq_true long
  have printed : Peeks (HeaderAccess data) before s₁ (ifVerbose verbose (printHeader data))
      (fun _ => True) := by
    cases verbose with
    | false => exact Peeks.pure untouched₁ trivial
    | true => exact printHeader_peeks untouched₁ long
  apply printed.bind
  intro _ s₂ untouched₂ _
  apply (headerBytes_peeks untouched₂ 0 2 (by decide) long).bind
  intro _ s₃ untouched₃ _
  apply (check_peeks untouched₃ (by decide)).bind
  intro _ s₄ untouched₄ _
  apply (headerWord_peeks untouched₄ 4 (by decide) long).bind
  rintro _ s₅ untouched₅ rfl
  apply (headerWord_peeks untouched₅ 8 (by decide) long).bind
  rintro _ s₆ untouched₆ rfl
  apply (headerWord_peeks untouched₆ 12 (by decide) long).bind
  rintro _ s₇ untouched₇ rfl
  apply (headerWord_peeks untouched₇ 16 (by decide) long).bind
  rintro _ s₈ untouched₈ rfl
  apply (headerWord_peeks untouched₈ 20 (by decide) long).bind
  rintro _ s₉ untouched₉ rfl
  exact Peeks.pure untouched₉ rfl

theorem checkSections_peeks {allowed : Access → Prop} (untouched : Untouched allowed before s)
    (header : BtfHeader) :
    Peeks allowed before s (checkSections data header) (fun _ => header.Formed data) := by
  unfold checkSections
  apply (check_peeks untouched (by decide)).bind
  intro _ s₁ untouched₁ headerEnd
  apply (check_peeks untouched₁ (by decide)).bind
  intro _ s₂ untouched₂ types
  apply (check_peeks untouched₂ (by decide)).bind
  intro _ s₃ untouched₃ typesEnd
  apply (check_peeks untouched₃ (by decide)).bind
  intro _ s₄ untouched₄ _
  apply (check_peeks untouched₄ (by decide)).bind
  intro _ s₅ untouched₅ strings
  apply (check_peeks untouched₅ (by decide)).bind
  intro _ s₆ untouched₆ stringsEnd
  apply (check_peeks untouched₆ (by decide)).imp
  · rintro _ s₇ ⟨untouched₇, inside⟩
    exact ⟨untouched₇, of_decide_eq_true headerEnd, of_decide_eq_true types,
      of_decide_eq_true typesEnd, of_decide_eq_true strings, of_decide_eq_true stringsEnd,
      of_decide_eq_true inside⟩
  · exact fun _ _ raised => raised

end

end Stg.Btf
