import Stg.Btf.Positions
import Stg.Lib.Decides

set_option autoImplicit false

/- What the reader accepts: a header and two sections in their places, and records that
say nothing outside of them. -/
namespace Stg.Btf

theorem Kind.ofNumber?_lt {number : Nat} {kind : Kind} (known : Kind.ofNumber? number = some kind) :
    number < nrBtfKinds := by
  by_contra large
  have large : 20 ≤ number := Nat.le_of_not_lt large
  unfold Kind.ofNumber? at known
  split at known <;> first | omega | cases known

/- What the reader asks of its input. -/

/-- The name at an offset lies inside the string section with the null byte that ends it. -/
def NameFormed (data : List UInt8) (strings : MemoryRange) (nameOff : UInt32) : Prop :=
  ∃ position, strings.start + nameOff.toNat ≤ position ∧ position < strings.limit ∧
    data[position]? = some 0

/-- The starts of items of a size. -/
def strided (size : Nat) : Nat → Nat → List Nat
  | _, 0 => []
  | start, count + 1 => start :: strided size (start + size) count

/-- The offsets of the names that a record of the kind mentions. -/
def nameOffsets (data : List UInt8) (t : BtfType) (payload : Nat) : Kind → List UInt32
  | .int | .typedef | .fwd | .func | .var => [t.nameOff]
  | .struct | .union =>
    t.nameOff :: (strided 12 payload t.vlen).map fun member => (memberAt data member).nameOff
  | .enum => t.nameOff :: (strided 8 payload t.vlen).map fun enum => (enumAt data enum).nameOff
  | .funcProto => (strided 8 payload t.vlen).map fun param => (paramAt data param).nameOff
  | .ptr | .volatile | .const | .restrict | .array | .datasec => []

structure RecordFormed (data : List UInt8) (strings : MemoryRange) (limit start : Nat) (kind : Kind) :
    Prop where
  known : Kind.ofNumber? (typeAt data start).kind = some kind
  payload : start + 12 + (typeAt data start).payloadSize kind ≤ limit
  names : ∀ nameOff ∈ nameOffsets data (typeAt data start) (start + 12) kind,
    NameFormed data strings nameOff
  /-- An integer starts at the first bit of its bytes. -/
  bits : kind = .int → intOffset (u32At data (start + 12)) = 0

/-- A stretch of the type section that is made of well-formed records. -/
inductive FormedRecords (data : List UInt8) (strings : MemoryRange) : Nat → Nat → List Record → Prop where
  | nil (limit : Nat) : FormedRecords data strings limit limit []
  | cons {start limit : Nat} {kind : Kind} {records : List Record}
      (formed : RecordFormed data strings limit start kind)
      (rest : FormedRecords data strings (start + 12 + (typeAt data start).payloadSize kind) limit records) :
      FormedRecords data strings start limit
        (recordOf data strings (typeAt data start) (start + 12) kind :: records)

structure Acceptable (data : List UInt8) (verbose : Bool) : Prop where
  long : 24 ≤ data.length
  magic : littleEndian (bytesAt data 0 2) = 0xEB9F
  formed : (headerAt data).Formed data
  aligned : (headerAt data).typeOff &&& (4 - 1) = 0
  /-- No two functions or variables share a name. -/
  records : ∃ records, FormedRecords data (headerAt data).stringSection
    (headerAt data).typeSection.start (headerAt data).typeSection.limit records ∧
      (records.filterMap Record.symbolName).Nodup
  /-- The listing of the strings comes to an end. -/
  printed : verbose = true → (headerAt data).stringSection.start = (headerAt data).stringSection.limit ∨
    data[(headerAt data).stringSection.limit - 1]? = some 0

section

variable {data : List UInt8} {s : Structs} {α β : Type}

theorem check_decides {ok : Bool} {message : String} :
    (check ok message : Reading Unit).Decides s (ok = true) := by
  unfold check
  split
  · rename_i holds
    exact EStateM.Decides.pure.congr (by simp [holds])
  · rename_i fails
    exact EStateM.Decides.throw.congr (by simp [fails])

theorem fetch_sure {region : Region} {offset size : Nat} (inside : offset + size ≤ data.length) :
    (fetch data region offset size).Decides s True := by
  unfold fetch
  apply EStateM.Decides.modify_bind
  rw [if_pos inside]
  exact EStateM.Decides.pure

theorem u32_sure {region : Region} {offset : Nat} (inside : offset + 4 ≤ data.length) :
    (u32 data region offset).Decides s True :=
  (fetch_sure inside).bind_sure (fetch_sure inside) fun _ _ _ => EStateM.Decides.pure

theorem pull_decides (memory : MemoryRange) (size count : Nat) :
    (memory.pull size count).Decides s (memory.start + size * count ≤ memory.limit) := by
  unfold MemoryRange.pull
  refine (check_decides.bind check_decides fun _ _ _ _ => EStateM.Decides.pure).congr ?_
  simp

theorem readWords_sure {offset : Nat} (make : UInt32 → UInt32 → UInt32 → α)
    (inside : offset + 12 ≤ data.length) :
    (do
      let first ← u32 data .types offset
      let second ← u32 data .types (offset + 4)
      let third ← u32 data .types (offset + 8)
      return make first second third : Reading α).Decides s True := by
  have first {s : Structs} : (u32 data .types offset).Decides s True := u32_sure (by omega)
  have second {s : Structs} : (u32 data .types (offset + 4)).Decides s True := u32_sure (by omega)
  have third {s : Structs} : (u32 data .types (offset + 8)).Decides s True := u32_sure (by omega)
  exact first.bind_sure first fun _ _ _ => second.bind_sure second fun _ _ _ =>
    third.bind_sure third fun _ _ _ => EStateM.Decides.pure

theorem readPair_sure {offset : Nat} (make : UInt32 → UInt32 → α)
    (inside : offset + 8 ≤ data.length) :
    (do
      let first ← u32 data .types offset
      let second ← u32 data .types (offset + 4)
      return make first second : Reading α).Decides s True := by
  have first {s : Structs} : (u32 data .types offset).Decides s True := u32_sure (by omega)
  have second {s : Structs} : (u32 data .types (offset + 4)).Decides s True := u32_sure (by omega)
  exact first.bind_sure first fun _ _ _ => second.bind_sure second fun _ _ _ => EStateM.Decides.pure

/-- The search stops at a null byte, or at its end if there is none. -/
theorem findNull_finds {count position : Nat} (inside : position + count ≤ data.length) :
    (findNull data count position).Ends s
      (fun found _ => position ≤ found ∧ (found < position + count → data[found]? = some 0) ∧
        ∀ null, position ≤ null → null < position + count → data[null]? = some 0 →
          found < position + count)
      (fun _ _ => False) := by
  induction count generalizing position s with
  | zero =>
    exact ⟨le_refl _, fun below => absurd below (lt_irrefl _), fun null after before _ => by omega⟩
  | succ count ih =>
    have within : position < data.length := by omega
    have read : bytesAt data position 1 = [data[position]] := by
      rw [bytesAt, List.drop_eq_getElem_cons within]
      rfl
    have here : data[position]? = some data[position] := List.getElem?_eq_getElem within
    have step : (findNull data (count + 1) position).run s =
        (if bytesAt data position 1 = [0] then pure position else findNull data count
          (position + 1)).run
          { s with reads := ⟨.strings, position, 1⟩ :: s.reads } := by
      have one : position + 1 ≤ data.length := by omega
      simp only [findNull, fetch, one, ↓reduceIte]
      rfl
    unfold EStateM.Ends
    rw [step, read]
    by_cases zero : data[position] = 0
    · rw [if_pos (by rw [zero])]
      exact ⟨le_refl _, fun _ => by rw [here, zero], fun _ _ _ _ => by omega⟩
    · rw [if_neg fun null => zero (List.head_eq_of_cons_eq null)]
      have same : position + 1 + count = position + (count + 1) := by omega
      refine (@ih _ (position + 1) (by omega)).imp ?_ fun _ _ never => never
      rintro found _ ⟨low, stops, finds⟩
      rw [same] at stops finds
      refine ⟨by omega, stops, fun null after before held => finds null ?_ before held⟩
      rcases Nat.lt_or_eq_of_le after with later | rfl
      · exact later
      · rw [here] at held
        exact absurd (Option.some.inj held) zero

end

section

variable {input : Input} {s : Structs}

theorem getName_decides (nameOff : UInt32) :
    (getName input.data input.strings nameOff).Decides s
      (NameFormed input.data input.strings nameOff) := by
  have strings := input.stringsInside
  unfold getName
  refine (check_decides.bind check_decides fun _ s₁ _ begins =>
    (?_ : EStateM.Decides _ s₁ (NameFormed input.data input.strings nameOff))).congr ?_
  · have begins := of_decide_eq_true begins
    have same : input.strings.start + nameOff.toNat +
        (input.strings.limit - (input.strings.start + nameOff.toNat)) =
          input.strings.limit := by omega
    have finds := @findNull_finds _ s₁ _ _ (same.trans_le strings)
    have sure : (findNull input.data (input.strings.limit - (input.strings.start + nameOff.toNat))
        (input.strings.start + nameOff.toNat)).Decides s₁ True :=
      finds.imp (fun _ _ _ => trivial) fun _ _ never => never.elim
    refine sure.bind_sure finds ?_
    rintro nameEnd s₂ ⟨low, stops, finds⟩
    rw [same] at stops finds
    have ends {s : Structs} : (do
        check (decide (nameEnd < input.strings.limit))
          "name continues past the string section limit"
        let bytes ← fetch input.data .strings (input.strings.start + nameOff.toNat)
          (nameEnd - (input.strings.start + nameOff.toNat))
        return ofBytes bytes : Reading String).Decides s
          (decide (nameEnd < input.strings.limit) = true ∧ True) := by
      refine check_decides.bind check_decides fun _ s₃ _ ended => ?_
      have ended := of_decide_eq_true ended
      have fetched {s : Structs} : (fetch input.data .strings (input.strings.start + nameOff.toNat)
          (nameEnd - (input.strings.start + nameOff.toNat))).Decides s True := fetch_sure (by omega)
      exact fetched.bind_sure fetched fun _ _ _ => EStateM.Decides.pure
    refine ends.congr ?_
    rw [decide_eq_true_eq, and_true]
    constructor
    · exact fun below => ⟨nameEnd, low, below, stops below⟩
    · rintro ⟨null, after, before, held⟩
      exact finds null after before held
  · rw [decide_eq_true_eq]
    constructor
    · exact fun both => both.2
    · rintro ⟨null, after, before, held⟩
      exact ⟨by omega, null, after, before, held⟩

/-- The listing comes to an end if the section is empty or ends with a null byte. -/
theorem printStrings_decides {fuel start : Nat} (within : start ≤ input.strings.limit)
    (enough : input.strings.limit - start < fuel) :
    (printStrings input.data fuel ⟨start, input.strings.limit⟩).Decides s
      (start = input.strings.limit ∨ input.data[input.strings.limit - 1]? = some 0) := by
  have strings := input.stringsInside
  induction fuel generalizing start s with
  | zero => omega
  | succ fuel ih =>
    unfold printStrings
    split
    · rename_i ended
      have last : start = input.strings.limit := by simpa [MemoryRange.empty] using ended
      exact EStateM.Decides.pure.congr (iff_of_true trivial (.inl last))
    · rename_i more
      have more : start ≠ input.strings.limit := by simpa [MemoryRange.empty] using more
      have same : start + (input.strings.limit - start) = input.strings.limit := by omega
      have finds := @findNull_finds _ s _ _ (same.trans_le strings)
      have sure : (findNull input.data (input.strings.limit - start) start).Decides s True :=
        finds.imp (fun _ _ _ => trivial) fun _ _ never => never.elim
      refine sure.bind_sure finds ?_
      rintro position s₁ ⟨low, stops, finds⟩
      rw [same] at stops finds
      refine (check_decides.bind check_decides fun _ s₂ _ found => (?_ : EStateM.Decides _ s₂
        (position + 1 = input.strings.limit ∨
          input.data[input.strings.limit - 1]? = some 0))).congr ?_
      · have found : position < input.strings.limit := of_decide_eq_true found
        have pulled {s : Structs} : (MemoryRange.pull ⟨start, input.strings.limit⟩ 1
            (position - start + 1)).Ends s
            (fun out _ => out = (start, ⟨position + 1, input.strings.limit⟩))
              (fun _ _ => False) := by
          have fits : start + 1 * (position - start + 1) ≤ input.strings.limit := by omega
          have next : start + 1 * (position - start + 1) = position + 1 := by omega
          unfold MemoryRange.pull check
          simp only [fits, decide_true, ↓reduceIte]
          exact congrArg (fun position => (start, MemoryRange.mk position input.strings.limit)) next
        have sure {s : Structs} : (MemoryRange.pull ⟨start, input.strings.limit⟩ 1
            (position - start + 1)).Decides s True :=
          pulled.imp (fun _ _ _ => trivial) fun _ _ never => never.elim
        refine sure.bind_sure pulled ?_
        rintro _ s₃ rfl
        have fetched {s : Structs} :
            (fetch input.data .strings start (position - start)).Decides s True :=
          fetch_sure (by omega)
        exact fetched.bind_sure fetched fun _ s₄ _ => ih (by omega) (by omega)
      · rw [decide_eq_true_eq]
        constructor
        · rintro ⟨found, last | null⟩
          · rw [← last, Nat.add_sub_cancel]
            exact .inr (stops found)
          · exact .inr null
        · rintro (ended | null)
          · exact absurd ended more
          · exact ⟨finds _ (by omega) (by omega) null, .inr null⟩

end

section

variable {input : Input} {base : Graph} {records : List Record} {pending : List RawMember}
  {s : Structs} {α β : Type} {call : Reading α} {rest : α → Reading β} {fact : α → Structs → Prop}
  {ok ok' : Prop}

theorem Keeps.decides_bind (keeps : Keeps input base records pending s call fact)
    (first : call.Decides s ok)
    (second : ∀ value s', Inv input base records pending s' → s.Grows s' → fact value s' → ok →
      (rest value).Decides s' ok') :
    (call >>= rest).Decides s (ok ∧ ok') :=
  first.bind keeps fun value s' ⟨inv, grows, holds⟩ passed => second value s' inv grows holds passed

theorem Keeps.sure_bind (keeps : Keeps input base records pending s call fact)
    (first : call.Decides s True)
    (second : ∀ value s', Inv input base records pending s' → s.Grows s' → fact value s' →
      (rest value).Decides s' ok) :
    (call >>= rest).Decides s ok :=
  first.bind_sure keeps fun value s' ⟨inv, grows, holds⟩ => second value s' inv grows holds

/- Ids are always found. -/

theorem add_sure (node : Node) : (add node).Decides s True :=
  add_ends node trivial

theorem getIdRaw_sure (index : UInt32) : (getIdRaw index).Decides s True := by
  unfold getIdRaw
  apply EStateM.Decides.get_bind
  split
  · exact EStateM.Decides.pure
  · exact EStateM.Decides.get_bind (EStateM.Decides.modify_bind EStateM.Decides.pure)

theorem getShared_sure (shared : Structs → Option Id) (keep : Id → Structs → Structs)
    (node : Node) :
    (getShared shared keep node).Decides s True :=
  getShared_ends (fun _ _ => trivial) fun _ => trivial

theorem getId_sure (index : UInt32) : (getId index).Decides s True := by
  unfold getId
  split
  · exact getIdRaw_sure index
  · exact getShared_sure _ _ _

theorem getParameterId_sure (index : UInt32) : (getParameterId index).Decides s True := by
  unfold getParameterId
  split
  · exact getIdRaw_sure index
  · exact getShared_sure _ _ _

/-- A slot is set once only. -/
theorem define_sure {index : UInt32} {node : Node} (inv : Inv input base records pending s)
    (next : index.toNat = records.length + 1) : (define index node).Decides s True := by
  have positive : index ≠ 0 := by
    rintro rfl
    cases next
  have undefined : definition records index = none := definition_none (by omega)
  unfold define
  refine (getIdRaw_keeps inv positive).sure_bind (getIdRaw_sure index) ?_
  intro id s' inv' _ slot
  apply EStateM.Decides.get_bind
  unfold Graph.set
  rw [inv'.unset index id slot undefined]
  exact trivial

theorem define_returns {index : UInt32} {node : Node} {value : α}
    (inv : Inv input base records pending s)
    (next : index.toNat = records.length + 1) :
    (do
      define index node
      return value).Decides s True :=
  (define_sure inv next).bind_sure (define_sure inv next) fun _ _ _ => EStateM.Decides.pure

/- The parts of a record. -/

theorem readName_decides (inv : Inv input base records pending s) (nameOff : UInt32)
    {rest : String → Reading β}
    (second : ∀ s', Inv input base records pending s' → s.Grows s' →
      (rest (nameAt input.data input.strings nameOff)).Decides s' ok) :
    (getName input.data input.strings nameOff >>= rest).Decides s
      (NameFormed input.data input.strings nameOff ∧ ok) := by
  refine (inv.peek (getName_peeks · nameOff)).decides_bind (getName_decides nameOff) ?_
  rintro _ s' inv' grows rfl _
  exact second s' inv' grows

theorem buildMembers_decides {kflag : Bool} {members vlen : Nat}
    (inv : Inv input base records pending s) (after : input.types.start ≤ members)
    (before : members + 12 * vlen ≤ input.types.limit) :
    (buildMembers input.data input.strings kflag members vlen).Decides s
      (∀ nameOff ∈ (strided 12 members vlen).map fun member => (memberAt input.data member).nameOff,
        NameFormed input.data input.strings nameOff) := by
  have inside := input.typesInside
  induction vlen generalizing members pending s with
  | zero => exact EStateM.Decides.pure.congr (by simp [strided])
  | succ vlen ih =>
    unfold buildMembers
    rw [strided, List.map_cons]
    refine EStateM.Decides.congr ?_ List.forall_mem_cons.symm
    refine (inv.peek (readMember_peeks · after (by omega))).sure_bind
      (readWords_sure BtfMember.mk (by omega)) ?_
    rintro _ s₁ inv₁ _ rfl
    refine readName_decides inv₁ _ fun s₂ inv₂ _ => ?_
    refine (getId_keeps inv₂ _).sure_bind (getId_sure _) ?_
    intro typeId s₃ inv₃ _ denotes
    refine (addMember_keeps inv₃ (rawMemberAt input.data input.strings kflag members)
      denotes).sure_bind
      (add_sure _) ?_
    intro id s₄ inv₄ _ _
    have later := @ih _ s₄ (members + 12) inv₄ (by omega) (by omega)
    exact (later.bind later fun _ _ _ _ => EStateM.Decides.pure).congr (and_iff_left trivial)

theorem buildEnums_decides {enums vlen : Nat} (inv : Inv input base records pending s)
    (after : input.types.start ≤ enums) (before : enums + 8 * vlen ≤ input.types.limit) :
    (buildEnums input.data input.strings enums vlen).Decides s
      (∀ nameOff ∈ (strided 8 enums vlen).map fun enum => (enumAt input.data enum).nameOff,
        NameFormed input.data input.strings nameOff) := by
  have inside := input.typesInside
  induction vlen generalizing enums s with
  | zero => exact EStateM.Decides.pure.congr (by simp [strided])
  | succ vlen ih =>
    unfold buildEnums
    rw [strided, List.map_cons]
    refine EStateM.Decides.congr ?_ List.forall_mem_cons.symm
    refine (inv.peek (readEnum_peeks · after (by omega))).sure_bind
      (readPair_sure BtfEnum.mk (by omega)) ?_
    rintro _ s₁ inv₁ _ rfl
    refine readName_decides inv₁ _ fun s₂ inv₂ _ => ?_
    have later := @ih s₂ (enums + 8) inv₂ (by omega) (by omega)
    exact (later.bind later fun _ _ _ _ => EStateM.Decides.pure).congr (and_iff_left trivial)

theorem buildParams_decides {params vlen : Nat} (inv : Inv input base records pending s)
    (after : input.types.start ≤ params) (before : params + 8 * vlen ≤ input.types.limit) :
    (buildParams input.data input.strings params vlen).Decides s
      (∀ nameOff ∈ (strided 8 params vlen).map fun param => (paramAt input.data param).nameOff,
        NameFormed input.data input.strings nameOff) := by
  have inside := input.typesInside
  induction vlen generalizing params s with
  | zero => exact EStateM.Decides.pure.congr (by simp [strided])
  | succ vlen ih =>
    unfold buildParams
    rw [strided, List.map_cons]
    refine EStateM.Decides.congr ?_ List.forall_mem_cons.symm
    refine (inv.peek (readParam_peeks · after (by omega))).sure_bind
      (readPair_sure BtfParam.mk (by omega)) ?_
    rintro _ s₁ inv₁ _ rfl
    refine readName_decides inv₁ _ fun s₂ inv₂ _ => ?_
    refine (getParameterId_keeps inv₂ _).sure_bind (getParameterId_sure _) ?_
    intro typeId s₃ inv₃ _ _
    have later := @ih s₃ (params + 8) inv₃ (by omega) (by omega)
    exact (later.bind later fun _ _ _ _ => EStateM.Decides.pure).congr (and_iff_left trivial)

end

theorem definition_mem {records : List Record} {record : Record} {index : UInt32}
    (defined : definition records index = some record) :
    record ∈ records := by
  unfold definition at defined
  split at defined
  · cases defined
  · exact List.mem_of_getElem? (Option.filter_eq_some_iff.mp defined).1

/- The kinds of records. -/

/-- What follows the header of a record is as its kind asks. -/
structure Fits (input : Input) (t : BtfType) (memory : MemoryRange) (kind : Kind) : Prop where
  payload : memory.start + t.payloadSize kind ≤ memory.limit
  names : ∀ nameOff ∈ nameOffsets input.data t memory.start kind,
    NameFormed input.data input.strings nameOff
  bits : kind = .int → intOffset (u32At input.data memory.start) = 0

section

variable {input : Input} {base : Graph} {records : List Record} {s : Structs} {index : UInt32}
  {t : BtfType} {memory : MemoryRange} (inv : Inv input base records [] s)
  (next : index.toNat = records.length + 1)

include inv next

theorem buildInt_decides (after : input.types.start ≤ memory.start)
    (limit : memory.limit = input.types.limit) :
    (buildInt input.data input.strings t index memory).Decides s (Fits input t memory .int) := by
  have inside := input.typesInside
  unfold buildInt
  refine EStateM.Decides.congr (?_ : EStateM.Decides _ s (memory.start + 4 * 1 ≤ memory.limit ∧
    NameFormed input.data input.strings t.nameOff ∧
      (intOffset (u32At input.data memory.start) == 0) = true ∧ True)) ?_
  · refine (inv.peek (pull_peeks · memory 4 1)).decides_bind (pull_decides memory 4 1) ?_
    rintro _ s₁ inv₁ _ ⟨rfl, within⟩ _
    refine (inv₁.peek (word_peeks · _ after (by omega))).sure_bind (u32_sure (by omega)) ?_
    rintro _ s₂ inv₂ _ rfl
    refine readName_decides inv₂ _ fun s₃ inv₃ _ => ?_
    refine (inv₃.peek (check_peeks · ?_)).decides_bind check_decides fun _ s₄ inv₄ _ _ _ => ?_
    · rw [String.append_assoc]
      exact different_text (by decide) (by decide)
    · exact define_returns inv₄ next
  · rw [beq_iff_eq, and_true]
    constructor
    · rintro ⟨payload, named, bits⟩
      exact ⟨payload, by simpa [nameOffsets] using named, fun _ => bits⟩
    · rintro ⟨payload, names, bits⟩
      exact ⟨payload, names _ List.mem_cons_self, bits rfl⟩

theorem buildPtr_decides (within : memory.start ≤ memory.limit) :
    (buildPtr t index memory).Decides s (Fits input t memory .ptr) := by
  unfold buildPtr
  refine EStateM.Decides.congr ((getId_keeps inv _).sure_bind (getId_sure _) fun _ s₁ inv₁ _ _ =>
    define_returns inv₁ next) (iff_of_true trivial ⟨within, nofun, nofun⟩)

theorem buildTypedef_decides (within : memory.start ≤ memory.limit) :
    (buildTypedef input.data input.strings t index memory).Decides s
      (Fits input t memory .typedef) := by
  unfold buildTypedef
  refine EStateM.Decides.congr (readName_decides inv t.nameOff fun s₁ inv₁ _ =>
    (getId_keeps inv₁ _).sure_bind (getId_sure _) fun _ s₂ inv₂ _ _ => define_returns inv₂ next) ?_
  constructor
  · rintro ⟨named, _⟩
    exact ⟨within, by simpa [nameOffsets] using named, nofun⟩
  · rintro ⟨_, names, _⟩
    exact ⟨names _ List.mem_cons_self, trivial⟩

theorem buildQualified_decides (kind : Kind) (qualifier : Qualifier)
    (within : memory.start ≤ memory.limit)
    (empty : t.payloadSize kind = 0) (nameless : nameOffsets input.data t memory.start kind = [])
    (other : kind ≠ .int) :
    (buildQualified t index memory qualifier).Decides s (Fits input t memory kind) := by
  unfold buildQualified
  refine EStateM.Decides.congr ((getId_keeps inv _).sure_bind (getId_sure _) fun _ s₁ inv₁ _ _ =>
    define_returns inv₁ next) (iff_of_true trivial ⟨?_, ?_, fun same => absurd same other⟩)
  · rwa [empty]
  · rw [nameless]
    exact nofun

theorem buildArray_decides (after : input.types.start ≤ memory.start)
    (limit : memory.limit = input.types.limit) :
    (buildArray input.data index memory).Decides s (Fits input t memory .array) := by
  have inside := input.typesInside
  unfold buildArray
  refine EStateM.Decides.congr
    (?_ : EStateM.Decides _ s (memory.start + 12 * 1 ≤ memory.limit ∧ True)) ?_
  · refine (inv.peek (pull_peeks · memory 12 1)).decides_bind (pull_decides memory 12 1) ?_
    rintro _ s₁ inv₁ _ ⟨rfl, within⟩ _
    refine (inv₁.peek (readArray_peeks · after (by omega))).sure_bind
      (readWords_sure BtfArray.mk (by omega)) ?_
    rintro _ s₂ inv₂ _ rfl
    exact (getId_keeps inv₂ _).sure_bind (getId_sure _) fun _ s₃ inv₃ _ _ =>
      define_returns inv₃ next
  · exact ⟨fun ⟨payload, _⟩ => ⟨payload, nofun, nofun⟩, fun fits => ⟨fits.payload, trivial⟩⟩

theorem buildStructUnion_decides (kind : Kind) (shape : StructUnion.Kind)
    (after : input.types.start ≤ memory.start) (limit : memory.limit = input.types.limit)
    (size : t.payloadSize kind = 12 * t.vlen)
    (offsets : nameOffsets input.data t memory.start kind =
      t.nameOff :: (strided 12 memory.start t.vlen).map fun member =>
        (memberAt input.data member).nameOff)
    (other : kind ≠ .int) :
    (buildStructUnion input.data input.strings t index memory shape).Decides s
      (Fits input t memory kind) := by
  unfold buildStructUnion
  refine EStateM.Decides.congr
    (?_ : EStateM.Decides _ s (NameFormed input.data input.strings t.nameOff ∧
    memory.start + 12 * t.vlen ≤ memory.limit ∧
    (∀ nameOff ∈ (strided 12 memory.start t.vlen).map fun member =>
      (memberAt input.data member).nameOff,
      NameFormed input.data input.strings nameOff) ∧ True)) ?_
  · refine readName_decides inv t.nameOff fun s₁ inv₁ _ => ?_
    refine (inv₁.peek (pull_peeks · memory 12 t.vlen)).decides_bind
      (pull_decides memory 12 t.vlen) ?_
    rintro _ s₂ inv₂ _ ⟨rfl, within⟩ _
    have before : memory.start + 12 * t.vlen ≤ input.types.limit := limit ▸ within
    refine (buildMembers_keeps inv₂ after before).decides_bind
      (buildMembers_decides inv₂ after before) ?_
    intro ids s₃ inv₃ _ _ _
    exact define_returns inv₃ next
  · constructor
    · rintro ⟨named, payload, names, _⟩
      exact ⟨size ▸ payload, offsets ▸ List.forall_mem_cons.mpr ⟨named, names⟩, fun same =>
        absurd same other⟩
    · rintro ⟨payload, names, _⟩
      rw [offsets] at names
      obtain ⟨named, names⟩ := List.forall_mem_cons.mp names
      exact ⟨named, size ▸ payload, names, trivial⟩

theorem buildEnum_decides (after : input.types.start ≤ memory.start)
    (limit : memory.limit = input.types.limit) :
    (buildEnum input.data input.strings t index memory).Decides s (Fits input t memory .enum) := by
  unfold buildEnum
  refine EStateM.Decides.congr
    (?_ : EStateM.Decides _ s (NameFormed input.data input.strings t.nameOff ∧
    memory.start + 8 * t.vlen ≤ memory.limit ∧
    (∀ nameOff ∈ (strided 8 memory.start t.vlen).map fun enum => (enumAt input.data enum).nameOff,
      NameFormed input.data input.strings nameOff) ∧ True)) ?_
  · refine readName_decides inv t.nameOff fun s₁ inv₁ _ => ?_
    refine (inv₁.peek (pull_peeks · memory 8 t.vlen)).decides_bind (pull_decides memory 8 t.vlen) ?_
    rintro _ s₂ inv₂ _ ⟨rfl, within⟩ _
    have before : memory.start + 8 * t.vlen ≤ input.types.limit := limit ▸ within
    refine (buildEnums_keeps inv₂ after before).decides_bind
      (buildEnums_decides inv₂ after before) ?_
    intro enumerators s₃ inv₃ _ _ _
    exact define_returns inv₃ next
  · constructor
    · rintro ⟨named, payload, names, _⟩
      exact ⟨payload, List.forall_mem_cons.mpr ⟨named, names⟩, nofun⟩
    · rintro ⟨payload, names, _⟩
      obtain ⟨named, names⟩ := List.forall_mem_cons.mp names
      exact ⟨named, payload, names, trivial⟩

theorem buildForward_decides (within : memory.start ≤ memory.limit) :
    (buildForward input.data input.strings t index memory).Decides s
      (Fits input t memory .fwd) := by
  unfold buildForward
  refine EStateM.Decides.congr (readName_decides inv t.nameOff fun s₁ inv₁ _ =>
    define_returns inv₁ next) ?_
  constructor
  · rintro ⟨named, _⟩
    exact ⟨within, by simpa [nameOffsets] using named, nofun⟩
  · rintro ⟨_, names, _⟩
    exact ⟨names _ List.mem_cons_self, trivial⟩

theorem buildFuncProto_decides (after : input.types.start ≤ memory.start)
    (limit : memory.limit = input.types.limit) :
    (buildFuncProto input.data input.strings t index memory).Decides s
      (Fits input t memory .funcProto) := by
  unfold buildFuncProto
  refine EStateM.Decides.congr (?_ : EStateM.Decides _ s (memory.start + 8 * t.vlen ≤ memory.limit ∧
    (∀ nameOff ∈ (strided 8 memory.start t.vlen).map fun param =>
      (paramAt input.data param).nameOff,
      NameFormed input.data input.strings nameOff) ∧ True)) ?_
  · refine (inv.peek (pull_peeks · memory 8 t.vlen)).decides_bind (pull_decides memory 8 t.vlen) ?_
    rintro _ s₁ inv₁ _ ⟨rfl, within⟩ _
    have before : memory.start + 8 * t.vlen ≤ input.types.limit := limit ▸ within
    refine (buildParams_keeps inv₁ after before).decides_bind
      (buildParams_decides inv₁ after before) ?_
    intro parameters s₂ inv₂ _ _ _
    exact (getId_keeps inv₂ _).sure_bind (getId_sure _) fun _ s₃ inv₃ _ _ =>
      define_returns inv₃ next
  · constructor
    · rintro ⟨payload, names, _⟩
      exact ⟨payload, names, nofun⟩
    · rintro ⟨payload, names, _⟩
      exact ⟨payload, names, trivial⟩

/-- A symbol is accepted if it is the first of its name. -/
theorem buildSymbol_decides (named : Named records s) (short : records.length < 2 ^ 32)
    {symbolType : ElfSymbol.SymbolType} (name : String) :
    (buildSymbol t index symbolType name).Decides s
      (name ∉ records.filterMap Record.symbolName) := by
  have positive : index ≠ 0 := by
    rintro rfl
    cases next
  unfold buildSymbol
  refine (getId_keeps inv _).sure_bind (getId_sure _) ?_
  rintro typeId s₁ inv₁ grows₁ denotes
  have defined := @define_keeps input base records (.symbol symbolType name t.sizeOrType) [] s₁
    index _ inv₁ next rfl ⟨typeId, denotes, rfl⟩ (by simp)
  refine defined.sure_bind (define_sure inv₁ next) ?_
  rintro _ s₂ inv₂ grows₂ _
  refine (getIdRaw_keeps inv₂ positive).sure_bind (getIdRaw_sure index) ?_
  rintro id s₃ inv₃ grows₃ _
  apply EStateM.Decides.get_bind
  apply EStateM.Decides.modify_bind
  have named₃ : Named records s₃ := named.grow inv (grows₁.trans (grows₂.trans grows₃))
  refine check_decides.congr (decide_eq_true_iff.trans (not_congr ?_))
  constructor
  · intro among
    obtain ⟨⟨key, id'⟩, entry, same⟩ := List.mem_map.mp among
    obtain ⟨index', record, name', defined', own, keyed, _⟩ := (named₃.entries key id').mp entry
    obtain rfl : name' = name := by
      rw [keyed] at same
      exact (SymbolKey.mk.inj same).2
    exact List.mem_filterMap.mpr ⟨record, definition_mem defined', own⟩
  · intro among
    obtain ⟨record, listed, own⟩ := List.mem_filterMap.mp among
    obtain ⟨k, held⟩ := List.mem_iff_getElem?.mp listed
    have defines : record.defines = true := by
      cases record <;> first | rfl | cases own
    have defined' := definition_at short held defines
    obtain ⟨id', _, slot, _⟩ := inv₃.linked _ record (definition_snoc.mpr (.inr defined'))
    exact List.mem_map_of_mem (f := Prod.fst)
      ((named₃.entries _ id').mpr ⟨_, record, name, defined', own, rfl, slot⟩)

theorem buildFunc_decides (named : Named records s) (short : records.length < 2 ^ 32)
    (within : memory.start ≤ memory.limit) :
    (buildFunc input.data input.strings t index memory).Decides s (Fits input t memory .func ∧
      nameAt input.data input.strings t.nameOff ∉ records.filterMap Record.symbolName) := by
  unfold buildFunc
  refine EStateM.Decides.congr (readName_decides inv t.nameOff fun s₁ inv₁ grows₁ =>
    (buildSymbol_decides inv₁ next (named.grow inv grows₁) short _).bind
      (buildSymbol_ends inv₁ (named.grow inv grows₁) next) fun _ _ _ _ => EStateM.Decides.pure) ?_
  rw [and_iff_left trivial]
  constructor
  · rintro ⟨formed, fresh⟩
    exact ⟨⟨within, by simpa [nameOffsets] using formed, nofun⟩, fresh⟩
  · rintro ⟨⟨_, names, _⟩, fresh⟩
    exact ⟨names _ List.mem_cons_self, fresh⟩

theorem buildVar_decides (named : Named records s) (short : records.length < 2 ^ 32)
    (after : input.types.start ≤ memory.start) (limit : memory.limit = input.types.limit) :
    (buildVar input.data input.strings t index memory).Decides s (Fits input t memory .var ∧
      nameAt input.data input.strings t.nameOff ∉ records.filterMap Record.symbolName) := by
  have inside := input.typesInside
  unfold buildVar
  refine EStateM.Decides.congr (?_ : EStateM.Decides _ s (memory.start + 4 * 1 ≤ memory.limit ∧
    NameFormed input.data input.strings t.nameOff ∧
    (nameAt input.data input.strings t.nameOff ∉ records.filterMap Record.symbolName) ∧ True)) ?_
  · refine (inv.peek (pull_peeks · memory 4 1)).decides_bind (pull_decides memory 4 1) ?_
    rintro _ s₁ inv₁ grows₁ ⟨rfl, within⟩ _
    refine readName_decides inv₁ _ fun s₂ inv₂ grows₂ => ?_
    refine (inv₂.peek (word_peeks · _ after (by omega))).sure_bind (u32_sure (by omega)) ?_
    rintro _ s₃ inv₃ grows₃ rfl
    have named₃ := named.grow inv (grows₁.trans (grows₂.trans grows₃))
    exact (buildSymbol_decides inv₃ next named₃ short _).bind (buildSymbol_ends inv₃ named₃ next)
      fun _ _ _ _ => EStateM.Decides.pure
  · rw [and_iff_left trivial]
    constructor
    · rintro ⟨payload, formed, fresh⟩
      exact ⟨⟨payload, by simpa [nameOffsets] using formed, nofun⟩, fresh⟩
    · rintro ⟨⟨payload, names, _⟩, fresh⟩
      exact ⟨payload, names _ List.mem_cons_self, fresh⟩

omit inv next in
theorem buildDatasec_decides :
    (buildDatasec t memory).Decides s (Fits input t memory .datasec) := by
  have pulled := @pull_decides s memory 12 t.vlen
  unfold buildDatasec
  refine (pulled.bind pulled fun _ _ _ _ => EStateM.Decides.pure).congr ?_
  exact ⟨fun ⟨payload, _⟩ => ⟨payload, nofun, nofun⟩, fun fits => ⟨fits.payload, trivial⟩⟩

end

/-- A record does not repeat the name of a function or a variable. -/
def Fresh (records : List Record) (record : Record) : Prop :=
  ∀ name, record.symbolName = some name → name ∉ records.filterMap Record.symbolName

theorem fresh_iff {records : List Record} {record : Record} {name : String}
    (own : record.symbolName = some name) :
    Fresh records record ↔ name ∉ records.filterMap Record.symbolName := by
  unfold Fresh
  rw [own]
  simp only [Option.some.injEq, forall_eq']

section

variable {input : Input} {base : Graph} {records : List Record} {s : Structs} {index : UInt32}
  {start : Nat}
  {kind : Kind}

/-- The record at a start is well formed and repeats no name. -/
def Accepted (input : Input) (records : List Record) (start : Nat) : Prop :=
  ∃ kind, RecordFormed input.data input.strings input.types.limit start kind ∧
    Fresh records (recordOf input.data input.strings (typeAt input.data start) (start + 12) kind)

theorem accepted_iff (known : Kind.ofNumber? (typeAt input.data start).kind = some kind) :
    Accepted input records start ↔
      Fits input (typeAt input.data start) ⟨start + 12, input.types.limit⟩ kind ∧
        Fresh records (recordOf input.data input.strings (typeAt input.data start)
          (start + 12) kind) := by
  constructor
  · rintro ⟨kind', ⟨known', payload, names, bits⟩, fresh⟩
    cases known.symm.trans known'
    exact ⟨⟨payload, names, bits⟩, fresh⟩
  · rintro ⟨⟨payload, names, bits⟩, fresh⟩
    exact ⟨kind, ⟨known, payload, names, bits⟩, fresh⟩

theorem not_accepted (unknown : Kind.ofNumber? (typeAt input.data start).kind = none) :
    ¬ Accepted input records start := by
  rintro ⟨kind, formed, _⟩
  cases unknown.symm.trans formed.known

theorem accepted_of_fits {call : Reading MemoryRange}
    (decides : call.Decides s
      (Fits input (typeAt input.data start) ⟨start + 12, input.types.limit⟩ kind))
    (known : Kind.ofNumber? (typeAt input.data start).kind = some kind)
    (nameless : (recordOf input.data input.strings (typeAt input.data start)
      (start + 12) kind).symbolName =
      none) : call.Decides s (Accepted input records start) := by
  refine decides.congr ((accepted_iff known).trans (and_iff_left ?_)).symm
  intro name own
  rw [nameless] at own
  cases own

theorem accepted_of_symbol {call : Reading MemoryRange} {name : String}
    (decides : call.Decides s
      (Fits input (typeAt input.data start) ⟨start + 12, input.types.limit⟩ kind ∧
      name ∉ records.filterMap Record.symbolName))
    (known : Kind.ofNumber? (typeAt input.data start).kind = some kind)
    (own : (recordOf input.data input.strings (typeAt input.data start)
      (start + 12) kind).symbolName =
      some name) : call.Decides s (Accepted input records start) :=
  decides.congr ((accepted_iff known).trans (and_congr_right' (fresh_iff own))).symm

theorem buildOneType_decides (inv : Inv input base records [] s) (named : Named records s)
    (next : index.toNat = records.length + 1) (short : records.length < 2 ^ 32)
    (after : input.types.start ≤ start) (within : start + 12 ≤ input.types.limit) :
    (buildOneType input.data input.strings start index ⟨start + 12, input.types.limit⟩).Decides s
      (Accepted input records start) := by
  have inside := input.typesInside
  have later : input.types.start ≤ (⟨start + 12, input.types.limit⟩ : MemoryRange).start := by
    show input.types.start ≤ start + 12
    omega
  have here : (⟨start + 12, input.types.limit⟩ : MemoryRange).limit = input.types.limit := rfl
  unfold buildOneType
  refine (inv.peek (readType_peeks · after within)).sure_bind
    (readWords_sure BtfType.mk (by omega)) ?_
  rintro _ s₁ inv₁ grows₁ rfl
  refine EStateM.Decides.congr ((inv₁.peek (check_peeks · (by decide))).decides_bind check_decides
    fun _ s₂ inv₂ grows₂ _ _ => (?_ : EStateM.Decides _ s₂ (Accepted input records start))) ?_
  · have named₂ : Named records s₂ := named.grow inv (grows₁.trans grows₂)
    have within : (⟨start + 12, input.types.limit⟩ : MemoryRange).start ≤
      (⟨start + 12, input.types.limit⟩ : MemoryRange).limit := within
    cases known : Kind.ofNumber? (typeAt input.data start).kind with
    | none => exact EStateM.Decides.throw.congr (iff_of_false id (not_accepted known))
    | some kind =>
      cases kind with
      | int => exact accepted_of_fits (buildInt_decides inv₂ next later here) known rfl
      | ptr => exact accepted_of_fits (buildPtr_decides inv₂ next within) known rfl
      | array => exact accepted_of_fits (buildArray_decides inv₂ next later here) known rfl
      | struct =>
        exact accepted_of_fits
          (buildStructUnion_decides inv₂ next .struct .struct later here rfl rfl nofun)
          known rfl
      | union =>
        exact accepted_of_fits
          (buildStructUnion_decides inv₂ next .union .union later here rfl rfl nofun)
          known rfl
      | enum => exact accepted_of_fits (buildEnum_decides inv₂ next later here) known rfl
      | fwd => exact accepted_of_fits (buildForward_decides inv₂ next within) known rfl
      | typedef => exact accepted_of_fits (buildTypedef_decides inv₂ next within) known rfl
      | volatile =>
        exact accepted_of_fits
          (buildQualified_decides inv₂ next .volatile .volatile within rfl rfl nofun) known rfl
      | const =>
        exact accepted_of_fits
          (buildQualified_decides inv₂ next .const .const within rfl rfl nofun) known rfl
      | restrict =>
        exact accepted_of_fits
          (buildQualified_decides inv₂ next .restrict .restrict within rfl rfl nofun) known rfl
      | funcProto => exact accepted_of_fits (buildFuncProto_decides inv₂ next later here) known rfl
      | datasec => exact accepted_of_fits buildDatasec_decides known rfl
      | func => exact accepted_of_symbol (buildFunc_decides inv₂ next named₂ short within) known rfl
      | var =>
        exact accepted_of_symbol (buildVar_decides inv₂ next named₂ short later here) known rfl
  · rw [and_iff_right_iff_imp, decide_eq_true_eq]
    rintro ⟨kind, formed, _⟩
    exact Kind.ofNumber?_lt formed.known

/-- What is accepted from a start on, after some records. -/
def Continues (input : Input) (records : List Record) (start : Nat) : Prop :=
  ∃ rest, FormedRecords input.data input.strings start input.types.limit rest ∧
    ((records ++ rest).filterMap Record.symbolName).Nodup

theorem fresh_of_nodup {record : Record} {rest : List Record}
    (distinct : ((records ++ record :: rest).filterMap Record.symbolName).Nodup) :
    Fresh records record := by
  intro name own among
  rw [List.filterMap_append, List.filterMap_cons, own] at distinct
  exact (List.nodup_append.mp distinct).2.2 name among name List.mem_cons_self rfl

theorem nodup_snoc {record : Record} (distinct : (records.filterMap Record.symbolName).Nodup)
    (fresh : Fresh records record) : ((records ++ [record]).filterMap Record.symbolName).Nodup := by
  rw [List.filterMap_append]
  cases own : record.symbolName with
  | none => simpa [List.filterMap_cons, own] using distinct
  | some name =>
    have new := fresh name own
    simp only [List.filterMap_cons, own, List.filterMap_nil]
    exact List.nodup_append.mpr ⟨distinct, List.nodup_singleton name, fun a among b same => by
      rw [List.mem_singleton.mp same]
      rintro rfl
      exact new among⟩

theorem not_continues (unknown : Kind.ofNumber? (typeAt input.data start).kind = none)
    (more : start ≠ input.types.limit) : ¬ Continues input records start := by
  rintro ⟨rest, formed, _⟩
  cases formed with
  | nil => exact more rfl
  | cons formed rest => cases unknown.symm.trans formed.known

/-- The next record and the rest after it. -/
theorem continues_iff (known : Kind.ofNumber? (typeAt input.data start).kind = some kind)
    (more : start ≠ input.types.limit) :
    Continues input records start ↔ start + 12 * 1 ≤ input.types.limit ∧
      Accepted input records start ∧
      Continues input (records ++ [recordOf input.data input.strings (typeAt input.data start)
        (start + 12)
        kind]) (start + 12 + (typeAt input.data start).payloadSize kind) := by
  constructor
  · rintro ⟨rest, formed, distinct⟩
    cases formed with
    | nil => exact absurd rfl more
    | cons formed rest =>
      cases known.symm.trans formed.known
      refine ⟨?_, ⟨_, formed, fresh_of_nodup distinct⟩, _, rest, ?_⟩
      · have := formed.payload
        omega
      · rwa [List.append_assoc]
  · rintro ⟨_, ⟨kind', formed, _⟩, rest, following, distinct⟩
    cases known.symm.trans formed.known
    refine ⟨_, .cons formed following, ?_⟩
    rwa [List.append_assoc] at distinct

theorem buildRecords_decides {fuel : Nat} (inv : Inv input base records [] s)
    (named : Named records s)
    (distinct : (records.filterMap Record.symbolName).Nodup)
    (next : index.toNat = records.length + 1)
    (after : input.types.start ≤ start) (within : start ≤ input.types.limit)
    (counted : input.types.start + 12 * records.length ≤ start)
    (short : input.types.limit - input.types.start < 2 ^ 32)
    (enough : input.types.limit - start < fuel) :
    (buildRecords input.data input.strings fuel index ⟨start, input.types.limit⟩).Decides s
      (Continues input records start) := by
  induction fuel generalizing records s index start with
  | zero => omega
  | succ fuel ih =>
    unfold buildRecords
    split
    · rename_i ended
      have last : start = input.types.limit := by simpa [MemoryRange.empty] using ended
      subst last
      exact EStateM.Decides.pure.congr
        (iff_of_true trivial ⟨[], .nil _, by rwa [List.append_nil]⟩)
    · rename_i more
      have more : start ≠ input.types.limit := by simpa [MemoryRange.empty] using more
      cases known : Kind.ofNumber? (typeAt input.data start).kind with
      | none =>
        refine EStateM.Decides.congr
          ((inv.peek (pull_peeks · _ 12 1)).decides_bind (pull_decides _ 12 1)
          fun _ s₁ inv₁ grows₁ pulled _ => (?_ : EStateM.Decides _ s₁ (False ∧ False))) ?_
        · obtain ⟨rfl, inside⟩ := pulled
          have inside : start + 12 * 1 ≤ input.types.limit := inside
          have one := buildOneType_decides inv₁ (named.grow inv grows₁) next (by omega) after inside
          exact EStateM.Decides.bind (one.congr (iff_of_false (not_accepted known) id)) one
            fun _ _ _ never => never.elim
        · exact iff_of_false (fun both => both.2.1) (not_continues known more)
      | some kind =>
        refine EStateM.Decides.congr ?_ (continues_iff known more).symm
        refine (inv.peek (pull_peeks · _ 12 1)).decides_bind (pull_decides _ 12 1) ?_
        rintro _ s₁ inv₁ grows₁ ⟨rfl, inside⟩ _
        have inside : start + 12 * 1 ≤ input.types.limit := inside
        have named₁ := named.grow inv grows₁
        refine (buildOneType_decides inv₁ named₁ next (by omega) after inside).bind
          (buildOneType_ends inv₁ named₁ next after inside) ?_
        rintro _ s₂ ⟨record, held, rfl, within₂, inv₂, named₂⟩ ⟨kind', formed, fresh⟩
        cases known.symm.trans formed.known
        rw [recordAt, known] at held
        cases held
        have size : (typeAt input.data start).size = 12 +
            (typeAt input.data start).payloadSize kind := by
          rw [BtfType.size, known]
          rfl
        rw [size, ← Nat.add_assoc] at within₂ ⊢
        have length : (records ++ [recordOf input.data input.strings (typeAt input.data start)
          (start + 12)
            kind]).length = records.length + 1 := by simp
        have next₂ : (index + 1).toNat = (records ++ [recordOf input.data input.strings
            (typeAt input.data start) (start + 12) kind]).length + 1 := by
          rw [UInt32.toNat_add, next, length]
          exact Nat.mod_eq_of_lt (by show records.length + 1 + 1 < 2 ^ 32; omega)
        exact ih inv₂ named₂ (nodup_snoc distinct fresh) next₂ (by omega) within₂
          (by omega) (by omega)

end

section

variable {data : List UInt8} {s : Structs}

theorem printHeader_sure (long : 24 ≤ data.length) : (printHeader data).Decides s True := by
  have bytes {s : Structs} (offset size : Nat) (within : offset + size ≤ 24) :
      (fetch data .header offset size).Decides s True := fetch_sure (by omega)
  have word {s : Structs} (offset : Nat) (within : offset + 4 ≤ 24) :
      (u32 data .header offset).Decides s True := u32_sure (by omega)
  unfold printHeader
  refine (bytes 0 2 (by decide)).bind_sure (bytes 0 2 (by decide)) fun _ _ _ => ?_
  refine (bytes 2 1 (by decide)).bind_sure (bytes 2 1 (by decide)) fun _ _ _ => ?_
  refine (bytes 3 1 (by decide)).bind_sure (bytes 3 1 (by decide)) fun _ _ _ => ?_
  refine (word 4 (by decide)).bind_sure (word 4 (by decide)) fun _ _ _ => ?_
  refine (word 8 (by decide)).bind_sure (word 8 (by decide)) fun _ _ _ => ?_
  refine (word 12 (by decide)).bind_sure (word 12 (by decide)) fun _ _ _ => ?_
  refine (word 16 (by decide)).bind_sure (word 16 (by decide)) fun _ _ _ => ?_
  exact (word 20 (by decide)).bind_sure (word 20 (by decide)) fun _ _ _ => EStateM.Decides.pure

theorem ifVerbose_decides {verbose : Bool} {action : Reading Unit} {ok : Prop}
    (decides : action.Decides s ok) :
    (ifVerbose verbose action).Decides s (verbose = true → ok) := by
  cases verbose with
  | false => exact EStateM.Decides.pure.congr (iff_of_true trivial nofun)
  | true => exact decides.congr (by simp)

theorem readHeader_decides (verbose : Bool) : (readHeader data verbose).Decides s
    ((24 ≤ data.length) ∧ littleEndian (bytesAt data 0 2) = 0xEB9F) := by
  unfold readHeader
  refine (check_decides.bind check_decides fun _ s₁ _ long => (?_ : EStateM.Decides _ s₁
    (littleEndian (bytesAt data 0 2) = 0xEB9F))).congr (by rw [decide_eq_true_eq])
  have long := of_decide_eq_true long
  have word {s : Structs} (offset : Nat) (within : offset + 4 ≤ 24) :
      (u32 data .header offset).Decides s True := u32_sure (by omega)
  have printed : (ifVerbose verbose (printHeader data)).Decides s₁ True :=
    (ifVerbose_decides (printHeader_sure long)).congr (by simp)
  refine printed.bind_sure printed fun _ s₂ _ => ?_
  have magic : (fetch data .header 0 2).Ends s₂ (fun bytes _ => bytes = bytesAt data 0 2)
      (fun _ _ => False) := by
    have inside : 0 + 2 ≤ data.length := by omega
    unfold fetch
    apply EStateM.Ends.modify_bind
    rw [if_pos inside]
    rfl
  have fetched : (fetch data .header 0 2).Decides s₂ True :=
    magic.imp (fun _ _ _ => trivial) fun _ _ never => never.elim
  refine fetched.bind_sure magic ?_
  rintro _ s₃ rfl
  refine (check_decides.bind check_decides fun _ s₄ _ _ => (?_ : EStateM.Decides _ s₄ True)).congr
    (by rw [beq_iff_eq, and_true])
  refine (word 4 (by decide)).bind_sure (word 4 (by decide)) fun _ _ _ => ?_
  refine (word 8 (by decide)).bind_sure (word 8 (by decide)) fun _ _ _ => ?_
  refine (word 12 (by decide)).bind_sure (word 12 (by decide)) fun _ _ _ => ?_
  refine (word 16 (by decide)).bind_sure (word 16 (by decide)) fun _ _ _ => ?_
  exact (word 20 (by decide)).bind_sure (word 20 (by decide)) fun _ _ _ => EStateM.Decides.pure

theorem checkSections_decides (header : BtfHeader) : (checkSections data header).Decides s
    (header.Formed data ∧ header.typeOff &&& (4 - 1) = 0) := by
  unfold checkSections
  refine EStateM.Decides.congr (check_decides.bind check_decides fun _ s₁ _ _ =>
    check_decides.bind check_decides fun _ s₂ _ _ =>
    check_decides.bind check_decides fun _ s₃ _ _ =>
    check_decides.bind check_decides fun _ s₄ _ _ =>
    check_decides.bind check_decides fun _ s₅ _ _ =>
    check_decides.bind check_decides fun _ s₆ _ _ => check_decides) ?_
  simp only [decide_eq_true_eq, beq_iff_eq]
  constructor
  · rintro ⟨headerEnd, types, typesEnd, aligned, strings, stringsEnd, inside⟩
    exact ⟨⟨headerEnd, types, typesEnd, strings, stringsEnd, inside⟩, aligned⟩
  · rintro ⟨⟨headerEnd, types, typesEnd, strings, stringsEnd, inside⟩, aligned⟩
    exact ⟨headerEnd, types, typesEnd, aligned, strings, stringsEnd, inside⟩

end

/-- The loop over the records of an input that begins with a well-formed header. -/
theorem sectionRecords_decides {data : List UInt8} (base : Graph) {reads : List Access} {fuel : Nat}
    (formed : (headerAt data).Formed data) (header : ∀ access ∈ reads, HeaderAccess data access)
    (enough : data.length < fuel) :
    (buildRecords data (headerAt data).stringSection fuel 1 (headerAt data).typeSection).Decides
      { graph := base, reads := reads }
        (Continues formed.toInput [] (headerAt data).typeSection.start) := by
  have types : (headerAt data).typeSection.limit ≤ data.length := formed.toInput.typesInside
  have short : (headerAt data).typeSection.limit - (headerAt data).typeSection.start < 2 ^ 32 := by
    have := (headerAt data).typeLen.toNat_lt
    unfold BtfHeader.typeSection
    dsimp only
    omega
  have initial := Inv.initial formed.toInput base fun access among => (header access among).allowed
  exact @buildRecords_decides formed.toInput base [] _ 1 _ fuel initial (Named.initial base reads)
    List.nodup_nil rfl (le_refl _) formed.typesEnd (le_refl _) short
    (lt_of_le_of_lt ((Nat.sub_le _ _).trans types) enough)

theorem buildSymbols_sure {s : Structs} : buildSymbols.Decides s True :=
  EStateM.Decides.get_bind (add_sure _)

theorem process_decides (data : List UInt8) (base : Graph) (verbose : Bool) {fuel : Nat}
    (enough : data.length < fuel) :
    (process data fuel verbose).Decides { graph := base } (Acceptable data verbose) := by
  have untouched : Untouched (HeaderAccess data) { graph := base } { graph := base } :=
    ⟨[], rfl, nofun⟩
  unfold process
  refine EStateM.Decides.congr
    ((readHeader_decides verbose).bind (readHeader_peeks untouched verbose)
    fun _ s₁ first _ => (?_ : EStateM.Decides _ s₁ (((headerAt data).Formed data ∧
      (headerAt data).typeOff &&& (4 - 1) = 0) ∧
        (∃ records, FormedRecords data (headerAt data).stringSection
        (headerAt data).typeSection.start (headerAt data).typeSection.limit records ∧
          (records.filterMap Record.symbolName).Nodup) ∧
      (verbose = true → (headerAt data).stringSection.start = (headerAt data).stringSection.limit ∨
        data[(headerAt data).stringSection.limit - 1]? = some 0)))) ?_
  · obtain ⟨untouched₁, rfl⟩ := first
    refine (checkSections_decides _).bind (checkSections_peeks untouched₁ _) ?_
    rintro _ _ ⟨⟨reads, rfl, header⟩, formed⟩ _
    have built := sectionRecords_decides base formed header enough
    have types : (buildTypes data (headerAt data).stringSection fuel
      (headerAt data).typeSection).Decides
        { graph := base, reads := reads }
        (Continues formed.toInput [] (headerAt data).typeSection.start ∧ True) :=
      built.bind built fun _ _ _ _ => buildSymbols_sure
    refine (types.congr (and_iff_left trivial)).bind types fun root s₂ _ _ => ?_
    have strings : (headerAt data).stringSection.limit ≤ data.length := formed.inside
    have printed := @ifVerbose_decides s₂ verbose _ _ (@printStrings_decides formed.toInput s₂ fuel
      (headerAt data).stringSection.start formed.stringsEnd
      (lt_of_le_of_lt ((Nat.sub_le _ _).trans strings) enough))
    exact (printed.bind printed fun _ _ _ _ => EStateM.Decides.pure).congr (and_iff_left trivial)
  · constructor
    · rintro ⟨⟨long, magic⟩, ⟨formed, aligned⟩, records, printed⟩
      exact ⟨long, magic, formed, aligned, records, printed⟩
    · rintro ⟨long, magic, formed, aligned, records, printed⟩
      exact ⟨⟨long, magic⟩, ⟨formed, aligned⟩, records, printed⟩

/-- An input is accepted, whatever the graph it is read into, if and only if its header and
sections are in order, its type section is a sequence of well-formed records, and no two
functions or variables share a name. -/
theorem process_accepts_iff (data : List UInt8) (base : Graph) (verbose : Bool) (fuel : Nat)
    (enough : data.length < fuel) :
    (∃ root s, (process data fuel verbose).run { graph := base } = .ok root s) ↔ Acceptable data verbose :=
  (process_decides data base verbose enough).returns_iff

theorem process_accepts_iff_forwardPointer :
    (∃ root s, (process forwardPointer 100 true).run { graph := ⟨[]⟩ } = .ok root s) ∧
      Acceptable forwardPointer true := by
  have ran : made ((process forwardPointer 100 true).run { graph := ⟨[]⟩ }) =
      some (⟨2⟩, [some (.elfSymbol ⟨"a", none, true, .object, .global, .default, none,
        some ⟨1⟩, none⟩), some (.pointerReference ⟨.pointer, ⟨0⟩⟩),
        some (.symbols ⟨[(⟨"", "a"⟩, ⟨0⟩)], by decide⟩)]) := by
    decide +kernel
  obtain ⟨s, ran, _⟩ := returns_of_made ran
  have accepted : ∃ root s, (process forwardPointer 100 true).run { graph := ⟨[]⟩ } = .ok root s :=
    ⟨⟨2⟩, s, ran⟩
  exact ⟨accepted, (process_accepts_iff forwardPointer ⟨[]⟩ true 100 (by decide +kernel)).mp
    accepted⟩

end Stg.Btf
