import Stg.Btf.Encode
import Stg.Lib.Refines

set_option autoImplicit false

/- What the reader makes depends on what the records say, and not on how the input is laid
out: it does to the graph what linking the records one after the other does. -/
namespace Stg.Btf

/- Linking records. -/

def linkMembers : List RawMember → Reading (List Id)
  | [] => return []
  | member :: members => do
    let typeId ← getId member.type
    let id ← add (.member ⟨member.name, typeId, member.offset, member.bitsize⟩)
    let rest ← linkMembers members
    return id :: rest

def linkParameters : List RawParameter → Reading (List Parameter)
  | [] => return []
  | parameter :: parameters => do
    let typeId ← getParameterId parameter.type
    let rest ← linkParameters parameters
    return ⟨parameter.name, typeId⟩ :: rest

/-- The node for a record at a position. -/
def link (index : UInt32) : Record → Reading Unit
  | .int name encoding bitsize bytesize => define index (.integer ⟨name, encoding, bitsize, bytesize⟩)
  | .ptr type => do
    let typeId ← getId type
    define index (.pointerReference ⟨.pointer, typeId⟩)
  | .typedef name type => do
    let typeId ← getId type
    define index (.typedef ⟨name, typeId⟩)
  | .qualified qualifier type => do
    let typeId ← getId type
    define index (.qualified ⟨qualifier, typeId⟩)
  | .array numberOfElements type => do
    let typeId ← getId type
    define index (.array ⟨numberOfElements, typeId⟩)
  | .structUnion kind name bytesize members => do
    let members ← linkMembers members
    define index (.structUnion ⟨kind, name, some ⟨bytesize, [], [], members⟩⟩)
  | .enum name definition => define index (.enumeration ⟨name, definition⟩)
  | .forward kind name => define index (.structUnion ⟨kind, name, none⟩)
  | .symbol symbolType name type => do
    let typeId ← getId type
    define index (.elfSymbol ⟨name, none, true, symbolType, .global, .default, none, some typeId, none⟩)
    let id ← getIdRaw index
    modify fun s => { s with btfSymbols := s.btfSymbols.insert ⟨"", name⟩ id }
  | .funcProto returnType parameters => do
    let parameters ← linkParameters parameters
    let returnTypeId ← getId returnType
    define index (.function ⟨returnTypeId, parameters⟩)
  | .datasec => return ()

def linkRecords : UInt32 → List Record → Reading Unit
  | _, [] => return ()
  | index, record :: records => do
    link index record
    linkRecords (index + 1) records

def linkAll (records : List Record) : Reading Id := do
  linkRecords 1 records
  buildSymbols

/- The reader, without its reads. -/

def Structs.quiet (s : Structs) : Structs := { s with reads := [] }

/-- The reads so far stay inside the input. -/
def Input.Covers (input : Input) (s : Structs) : Prop := ∀ access ∈ s.reads, input.Allows access

/-- Where the call returns, so does the other one, with the same graph and without a read. -/
abbrev Does {α γ : Type} (input : Input) (s : Structs) (call : Reading α) (other : Reading γ)
    (related : α → γ → Prop) : Prop :=
  call.Refines Structs.quiet input.Covers s other related

section

variable {α β γ : Type} {input : Input} {s : Structs} {call : Reading α} {fact : α → Prop}

theorem Peeks.covered (peeks : Untouched input.Allows s s → Peeks input.Allows s s call fact)
    (covered : input.Covers s) :
    call.Ends s (fun value s' => input.Covers s' ∧ s'.quiet = s.quiet ∧ fact value)
      (fun _ _ => True) := by
  apply (peeks ⟨s.reads, rfl, covered⟩).imp
  · rintro value _ ⟨⟨reads, rfl, allowed⟩, holds⟩
    exact ⟨allowed, rfl, holds⟩
  · exact fun _ _ _ => trivial

/-- A call that only reads is left out. -/
theorem Does.peek {rest : α → Reading β} {other : Reading γ} {related : β → γ → Prop}
    (peeks : Untouched input.Allows s s → Peeks input.Allows s s call fact)
    (covered : input.Covers s)
    (second : ∀ value s', input.Covers s' → fact value → Does input s' (rest value) other related) :
    Does input s (call >>= rest) other related :=
  .skip (Peeks.covered peeks covered) second

theorem Does.check {ok : Bool} {message : String} {rest : Unit → Reading β} {other : Reading γ}
    {related : β → γ → Prop} (second : Does input s (rest ()) other related) :
    Does input s (check ok message >>= rest) other related := by
  unfold Stg.check
  split
  · exact second
  · exact trivial

end

section

variable {input : Input} {s : Structs} {index : UInt32}

theorem add_does (node : Node) (covered : input.Covers s) : Does input s (add node) (add node) Eq :=
  add_ends node ⟨covered, _, add_run s.quiet node, rfl⟩

/-- What is kept for later does not depend on the accesses. -/
theorem getShared_does {shared : Structs → Option Id} {keep : Id → Structs → Structs} (node : Node)
    (quiet : ∀ s, shared s.quiet = shared s) (kept : ∀ id s, keep id s.quiet = (keep id s).quiet)
    (covers : ∀ id s, input.Covers s → input.Covers (keep id s)) (covered : input.Covers s) :
    Does input s (getShared shared keep node) (getShared shared keep node) Eq := by
  unfold getShared
  apply EStateM.Refines.get_bind
  rw [quiet]
  cases shared s with
  | some id => exact .pure covered rfl
  | none =>
    apply (add_does node covered).bind
    rintro id _ s₁ covered₁ rfl
    exact .modify_bind (kept id s₁) (.pure (covers id s₁ covered₁) rfl)

theorem getIdRaw_does (index : UInt32) (covered : input.Covers s) :
    Does input s (getIdRaw index) (getIdRaw index) Eq := by
  unfold getIdRaw
  apply EStateM.Refines.get_bind
  have same : s.quiet.btfTypeIds = s.btfTypeIds := rfl
  rw [same]
  cases s.btfTypeIds.lookup index with
  | some id => exact .pure covered rfl
  | none =>
    apply EStateM.Refines.get_bind
    exact .modify_bind rfl (.pure covered rfl)

theorem getId_does (index : UInt32) (covered : input.Covers s) :
    Does input s (getId index) (getId index) Eq := by
  unfold getId
  split
  · exact getIdRaw_does index covered
  · exact getShared_does .void (fun _ => rfl) (fun _ _ => rfl) (fun _ _ covered => covered) covered

theorem getParameterId_does (index : UInt32) (covered : input.Covers s) :
    Does input s (getParameterId index) (getParameterId index) Eq := by
  unfold getParameterId
  split
  · exact getIdRaw_does index covered
  · exact getShared_does .variadic (fun _ => rfl) (fun _ _ => rfl)
      (fun _ _ covered => covered) covered

theorem define_does (index : UInt32) (node : Node) (covered : input.Covers s) :
    Does input s (define index node) (define index node) fun _ _ => True := by
  unfold define
  apply (getIdRaw_does index covered).bind
  rintro id _ s₁ covered₁ rfl
  apply EStateM.Refines.get_bind
  have same : s₁.quiet.graph = s₁.graph := rfl
  rw [same]
  cases s₁.graph.set id node with
  | ok graph => exact .modified covered₁ rfl
  | error reason => exact trivial

end

/- Each kind of record. -/

/-- The cursor has gone past `extra` bytes. -/
def Passes (memory : MemoryRange) (extra : Nat) (memory' : MemoryRange) (_ : Unit) : Prop :=
  memory' = ⟨memory.start + extra, memory.limit⟩

section

variable {input : Input} {s : Structs} {index : UInt32} {t : BtfType} {memory : MemoryRange}

theorem buildMembers_does {kflag : Bool} {members vlen : Nat} (covered : input.Covers s)
    (after : input.types.start ≤ members) (before : members + 12 * vlen ≤ input.types.limit) :
    Does input s (buildMembers input.data input.strings kflag members vlen)
      (linkMembers (rawMembers input.data input.strings kflag members vlen)) Eq := by
  induction vlen generalizing members s with
  | zero => exact .pure covered rfl
  | succ vlen ih =>
    unfold buildMembers rawMembers linkMembers
    apply Does.peek (readMember_peeks · after (by omega)) covered
    rintro _ s₁ covered₁ rfl
    apply Does.peek (getName_peeks · _) covered₁
    rintro _ s₂ covered₂ rfl
    apply (getId_does _ covered₂).bind
    rintro typeId _ s₃ covered₃ rfl
    apply (add_does _ covered₃).bind
    rintro id _ s₄ covered₄ rfl
    apply (ih covered₄ (by omega) (by omega)).bind
    rintro rest _ s₅ covered₅ rfl
    exact .pure covered₅ rfl

theorem buildParams_does {params vlen : Nat} (covered : input.Covers s)
    (after : input.types.start ≤ params) (before : params + 8 * vlen ≤ input.types.limit) :
    Does input s (buildParams input.data input.strings params vlen)
      (linkParameters (rawParameters input.data input.strings params vlen)) Eq := by
  induction vlen generalizing params s with
  | zero => exact .pure covered rfl
  | succ vlen ih =>
    unfold buildParams rawParameters linkParameters
    apply Does.peek (readParam_peeks · after (by omega)) covered
    rintro _ s₁ covered₁ rfl
    apply Does.peek (getName_peeks · _) covered₁
    rintro _ s₂ covered₂ rfl
    apply (getParameterId_does _ covered₂).bind
    rintro typeId _ s₃ covered₃ rfl
    apply (ih covered₃ (by omega) (by omega)).bind
    rintro rest _ s₄ covered₄ rfl
    exact .pure covered₄ rfl

theorem buildEnums_peeks {before : Structs} {enums vlen : Nat}
    (untouched : Untouched input.Allows before s)
    (after : input.types.start ≤ enums) (within : enums + 8 * vlen ≤ input.types.limit) :
    Peeks input.Allows before s (buildEnums input.data input.strings enums vlen)
      (fun enumerators => enumerators = rawEnumerators input.data input.strings enums vlen) := by
  induction vlen generalizing enums s with
  | zero => exact .pure untouched rfl
  | succ vlen ih =>
    unfold buildEnums rawEnumerators
    apply (readEnum_peeks untouched after (by omega)).bind
    rintro _ s₁ untouched₁ rfl
    apply (getName_peeks untouched₁ _).bind
    rintro _ s₂ untouched₂ rfl
    apply (ih untouched₂ (by omega) (by omega)).bind
    rintro _ s₃ untouched₃ rfl
    exact .pure untouched₃ rfl

/-- The node is made last, and then the cursor is returned. -/
theorem Does.passes {call other : Reading Unit} {extra : Nat} {memory' : MemoryRange}
    (does : Does input s call other fun _ _ => True)
    (passed : memory' = ⟨memory.start + extra, memory.limit⟩) :
    Does input s
      (do
        call
        return memory')
      other (Passes memory extra) :=
  does.after fun _ _ _ covered₁ _ => .pure covered₁ passed

theorem buildInt_does (covered : input.Covers s) (after : input.types.start ≤ memory.start)
    (limit : memory.limit = input.types.limit) :
    Does input s (buildInt input.data input.strings t index memory)
      (link index (recordOf input.data input.strings t memory.start .int)) (Passes memory 4) := by
  unfold buildInt
  apply Does.peek (pull_peeks · memory 4 1) covered
  rintro _ s₁ covered₁ ⟨rfl, within⟩
  dsimp only at within ⊢
  apply Does.peek (word_peeks · memory.start after (by omega)) covered₁
  rintro _ s₂ covered₂ rfl
  apply Does.peek (getName_peeks · _) covered₂
  rintro _ s₃ covered₃ rfl
  exact .check ((define_does _ _ covered₃).passes rfl)

theorem buildPtr_does (covered : input.Covers s) :
    Does input s (buildPtr t index memory)
      (link index (recordOf input.data input.strings t memory.start .ptr))
      (Passes memory 0) := by
  unfold buildPtr recordOf link
  apply (getId_does _ covered).bind
  rintro typeId _ s₁ covered₁ rfl
  exact (define_does _ _ covered₁).passes rfl

theorem buildTypedef_does (covered : input.Covers s) :
    Does input s (buildTypedef input.data input.strings t index memory)
      (link index (recordOf input.data input.strings t memory.start .typedef))
        (Passes memory 0) := by
  unfold buildTypedef recordOf link
  apply Does.peek (getName_peeks · _) covered
  rintro _ s₁ covered₁ rfl
  apply (getId_does _ covered₁).bind
  rintro typeId _ s₂ covered₂ rfl
  exact (define_does _ _ covered₂).passes rfl

theorem buildQualified_does (qualifier : Qualifier) (covered : input.Covers s) :
    Does input s (buildQualified t index memory qualifier)
      (link index (.qualified qualifier t.sizeOrType))
      (Passes memory 0) := by
  unfold buildQualified link
  apply (getId_does _ covered).bind
  rintro typeId _ s₁ covered₁ rfl
  exact (define_does _ _ covered₁).passes rfl

theorem buildArray_does (covered : input.Covers s) (after : input.types.start ≤ memory.start)
    (limit : memory.limit = input.types.limit) :
    Does input s (buildArray input.data index memory)
      (link index (recordOf input.data input.strings t memory.start .array))
        (Passes memory 12) := by
  unfold buildArray recordOf link
  apply Does.peek (pull_peeks · memory 12 1) covered
  rintro _ s₁ covered₁ ⟨rfl, within⟩
  dsimp only at within ⊢
  apply Does.peek (readArray_peeks · after (by omega)) covered₁
  rintro _ s₂ covered₂ rfl
  apply (getId_does _ covered₂).bind
  rintro typeId _ s₃ covered₃ rfl
  exact (define_does _ _ covered₃).passes rfl

theorem buildStructUnion_does (kind : StructUnion.Kind) (covered : input.Covers s)
    (after : input.types.start ≤ memory.start) (limit : memory.limit = input.types.limit) :
    Does input s (buildStructUnion input.data input.strings t index memory kind)
      (link index (.structUnion kind (nameAt input.data input.strings t.nameOff)
        t.sizeOrType.toUInt64
        (rawMembers input.data input.strings t.kflag memory.start t.vlen)))
      (Passes memory (12 * t.vlen)) := by
  unfold buildStructUnion link
  apply Does.peek (getName_peeks · _) covered
  rintro _ s₁ covered₁ rfl
  apply Does.peek (pull_peeks · memory 12 t.vlen) covered₁
  rintro _ s₂ covered₂ ⟨rfl, within⟩
  dsimp only at within ⊢
  apply (buildMembers_does covered₂ after (by omega)).bind
  rintro members _ s₃ covered₃ rfl
  exact (define_does _ _ covered₃).passes rfl

theorem buildEnum_does (covered : input.Covers s) (after : input.types.start ≤ memory.start)
    (limit : memory.limit = input.types.limit) :
    Does input s (buildEnum input.data input.strings t index memory)
      (link index (recordOf input.data input.strings t memory.start .enum))
        (Passes memory (8 * t.vlen)) := by
  unfold buildEnum recordOf link
  apply Does.peek (getName_peeks · _) covered
  rintro _ s₁ covered₁ rfl
  apply Does.peek (pull_peeks · memory 8 t.vlen) covered₁
  rintro _ s₂ covered₂ ⟨rfl, within⟩
  dsimp only at within ⊢
  apply Does.peek (buildEnums_peeks · after (by omega)) covered₂
  rintro _ s₃ covered₃ rfl
  exact (define_does _ _ covered₃).passes rfl

theorem buildForward_does (covered : input.Covers s) :
    Does input s (buildForward input.data input.strings t index memory)
      (link index (recordOf input.data input.strings t memory.start .fwd)) (Passes memory 0) := by
  unfold buildForward recordOf link
  apply Does.peek (getName_peeks · _) covered
  rintro _ s₁ covered₁ rfl
  exact (define_does _ _ covered₁).passes rfl

theorem buildFuncProto_does (covered : input.Covers s) (after : input.types.start ≤ memory.start)
    (limit : memory.limit = input.types.limit) :
    Does input s (buildFuncProto input.data input.strings t index memory)
      (link index (recordOf input.data input.strings t memory.start .funcProto))
      (Passes memory (8 * t.vlen)) := by
  unfold buildFuncProto recordOf link
  apply Does.peek (pull_peeks · memory 8 t.vlen) covered
  rintro _ s₁ covered₁ ⟨rfl, within⟩
  dsimp only at within ⊢
  apply (buildParams_does covered₁ after (by omega)).bind
  rintro parameters _ s₂ covered₂ rfl
  apply (getId_does _ covered₂).bind
  rintro returnTypeId _ s₃ covered₃ rfl
  exact (define_does _ _ covered₃).passes rfl

theorem buildSymbol_does (symbolType : ElfSymbol.SymbolType) (name : String)
    (covered : input.Covers s) :
    Does input s (buildSymbol t index symbolType name)
      (link index (.symbol symbolType name t.sizeOrType))
      fun _ _ => True := by
  unfold buildSymbol link
  apply (getId_does _ covered).bind
  rintro typeId _ s₁ covered₁ rfl
  apply (define_does index _ covered₁).bind
  rintro _ _ s₂ covered₂ _
  apply (getIdRaw_does index covered₂).bind
  rintro id _ s₃ covered₃ rfl
  -- a name that there is already stops the reader after its entry has been made
  apply EStateM.Ends.get_bind
  apply EStateM.Ends.modify_bind
  unfold check
  split
  · exact ⟨covered₃, (), rfl, trivial⟩
  · exact trivial

theorem buildFunc_does (covered : input.Covers s) :
    Does input s (buildFunc input.data input.strings t index memory)
      (link index (recordOf input.data input.strings t memory.start .func)) (Passes memory 0) := by
  unfold buildFunc
  apply Does.peek (getName_peeks · _) covered
  rintro _ s₁ covered₁ rfl
  exact (buildSymbol_does .function _ covered₁).passes rfl

theorem buildVar_does (covered : input.Covers s) (after : input.types.start ≤ memory.start)
    (limit : memory.limit = input.types.limit) :
    Does input s (buildVar input.data input.strings t index memory)
      (link index (recordOf input.data input.strings t memory.start .var)) (Passes memory 4) := by
  unfold buildVar
  apply Does.peek (pull_peeks · memory 4 1) covered
  rintro _ s₁ covered₁ ⟨rfl, within⟩
  dsimp only at within ⊢
  apply Does.peek (getName_peeks · _) covered₁
  rintro _ s₂ covered₂ rfl
  apply Does.peek (word_peeks · memory.start after (by omega)) covered₂
  rintro _ s₃ covered₃ rfl
  exact (buildSymbol_does .object _ covered₃).passes rfl

theorem buildDatasec_does (covered : input.Covers s) :
    Does input s (buildDatasec t memory) (link index .datasec) (Passes memory (12 * t.vlen)) := by
  unfold buildDatasec link
  apply Does.peek (pull_peeks · memory 12 t.vlen) covered
  rintro _ s₁ covered₁ ⟨rfl, _⟩
  exact .pure covered₁ rfl

end

/- All the records. -/

section

variable {input : Input} {s : Structs} {index : UInt32} {start : Nat} {record : Record}
  {records : List Record}

theorem Does.past {kind : Kind} {call : Reading MemoryRange} {other : Reading Unit}
    (does : Does input s call other
      (Passes ⟨start + 12, input.types.limit⟩ ((typeAt input.data start).payloadSize kind)))
    (known : Kind.ofNumber? (typeAt input.data start).kind = some kind) :
    Does input s call other
      fun memory' _ => memory' = ⟨start + (typeAt input.data start).size, input.types.limit⟩ := by
  apply does.imp
  rintro _ _ rfl
  rw [BtfType.size, known, Option.map_some, Option.getD_some, Nat.add_assoc]

theorem buildOneType_does (covered : input.Covers s) (after : input.types.start ≤ start)
    (within : start + 12 ≤ input.types.limit)
    (recorded : recordAt input.data input.strings start = some record) :
    Does input s (buildOneType input.data input.strings start index ⟨start + 12, input.types.limit⟩)
      (link index record)
      fun memory' _ => memory' = ⟨start + (typeAt input.data start).size, input.types.limit⟩ := by
  have later : input.types.start ≤ (⟨start + 12, input.types.limit⟩ : MemoryRange).start := by
    show input.types.start ≤ start + 12
    omega
  have here : (⟨start + 12, input.types.limit⟩ : MemoryRange).limit = input.types.limit := rfl
  unfold buildOneType
  apply Does.peek (readType_peeks · after within) covered
  rintro _ s₁ covered₁ rfl
  apply Does.check
  unfold recordAt at recorded
  cases known : Kind.ofNumber? (typeAt input.data start).kind with
  | none => exact trivial
  | some kind =>
    rw [known] at recorded
    cases recorded
    cases kind with
    | int => exact (buildInt_does covered₁ later here).past known
    | ptr => exact (buildPtr_does covered₁).past known
    | array => exact (buildArray_does covered₁ later here).past known
    | struct => exact (buildStructUnion_does .struct covered₁ later here).past known
    | union => exact (buildStructUnion_does .union covered₁ later here).past known
    | enum => exact (buildEnum_does covered₁ later here).past known
    | fwd => exact (buildForward_does covered₁).past known
    | typedef => exact (buildTypedef_does covered₁).past known
    | volatile => exact (buildQualified_does .volatile covered₁).past known
    | const => exact (buildQualified_does .const covered₁).past known
    | restrict => exact (buildQualified_does .restrict covered₁).past known
    | funcProto => exact (buildFuncProto_does covered₁ later here).past known
    | datasec => exact (buildDatasec_does covered₁).past known
    | func => exact (buildFunc_does covered₁).past known
    | var => exact (buildVar_does covered₁ later here).past known

theorem buildRecords_does {fuel : Nat} (covered : input.Covers s)
    (after : input.types.start ≤ start)
    (tiled : Records input.data input.strings start input.types.limit records) :
    Does input s (buildRecords input.data input.strings fuel index ⟨start, input.types.limit⟩)
      (linkRecords index records) fun _ _ => True := by
  induction fuel generalizing s index start records with
  | zero => exact trivial
  | succ fuel ih =>
    unfold buildRecords
    cases tiled with
    | nil =>
      rw [if_pos (by simp [MemoryRange.empty])]
      exact .pure covered trivial
    | cons recorded rest =>
      have le := rest.le
      have size : 12 ≤ (typeAt input.data start).size := Nat.le_add_right 12 _
      have further : start ≠ input.types.limit := by omega
      rw [if_neg (by simpa [MemoryRange.empty] using further)]
      unfold linkRecords
      apply Does.peek (pull_peeks · _ 12 1) covered
      rintro _ s₁ covered₁ ⟨rfl, within⟩
      apply (buildOneType_does covered₁ after within recorded).bind
      rintro _ _ s₂ covered₂ rfl
      exact ih covered₂ (by omega) rest

end

theorem process_does {data : List UInt8} (formed : (headerAt data).Formed data) (base : Graph)
    (verbose : Bool) {fuel : Nat} (enough : data.length < fuel) {records : List Record}
    (sectioned : Sectioned data records) :
    Does formed.toInput { graph := base } (process data fuel verbose) (linkAll records) Eq := by
  have header : (readHeader data verbose).Ends { graph := base }
      (fun header s => formed.toInput.Covers s ∧ s.quiet = { graph := base } ∧
        header = headerAt data)
      (fun _ _ => True) := by
    have untouched : Untouched (HeaderAccess data) { graph := base } { graph := base } :=
      ⟨[], rfl, nofun⟩
    apply (readHeader_peeks untouched verbose).imp
    · rintro header _ ⟨⟨reads, rfl, each⟩, same⟩
      exact ⟨fun access among => (each access among).allowed, rfl, same⟩
    · exact fun _ _ _ => trivial
  unfold process
  apply EStateM.Refines.skip header
  rintro _ s₁ covered₁ rfl
  apply Does.peek (checkSections_peeks · _) covered₁
  rintro _ s₂ covered₂ _
  have built : Does formed.toInput s₂
      (buildTypes data (headerAt data).stringSection fuel (headerAt data).typeSection)
      (linkAll records) Eq := by
    unfold buildTypes linkAll
    apply (buildRecords_does covered₂ (le_refl _) sectioned).bind
    rintro _ _ s₃ covered₃ _
    exact .get_bind (add_does _ covered₃)
  apply built.after
  rintro root _ s₃ covered₃ rfl
  have printed (untouched : Untouched formed.toInput.Allows s₃ s₃) :
      Peeks formed.toInput.Allows s₃ s₃
        (ifVerbose verbose (printStrings data fuel (headerAt data).stringSection))
          (fun _ => True) := by
    cases verbose with
    | false => exact .pure untouched trivial
    | true =>
      have strings : (headerAt data).stringSection.limit ≤ data.length := formed.inside
      exact @printStrings_peeks formed.toInput _ s₃ fuel _ untouched (le_refl _) formed.stringsEnd
        (lt_of_le_of_lt ((Nat.sub_le _ _).trans strings) enough)
  apply Does.peek printed covered₃
  exact fun _ s₄ covered₄ _ => .pure covered₄ rfl

/-- The reader returns if and only if it accepts the input, and then with what linking
the records gives that the input says: neither their layout nor being verbose matters. -/
theorem process_returns_iff (data : List UInt8) (base : Graph) (verbose : Bool) (fuel : Nat)
    (enough : data.length < fuel) (root : Id) (linked : Structs) :
    (∃ s, (process data fuel verbose).run { graph := base } = .ok root s ∧ s.quiet = linked) ↔
      Acceptable data verbose ∧ ∃ records, Sectioned data records ∧
        (linkAll records).run { graph := base } = .ok root linked := by
  have decides := (process_decides data base verbose enough).returns_iff
  have ends := process_ends data base verbose enough
  constructor
  · rintro ⟨s, ran, rfl⟩
    obtain ⟨records, _, finished⟩ := ends.returns ran
    have does := process_does finished.formed base verbose enough finished.sectioned
    obtain ⟨_, _, ran', rfl⟩ := EStateM.Ends.returns does ran
    exact ⟨decides.mp ⟨root, s, ran⟩, records, finished.sectioned, ran'⟩
  · rintro ⟨acceptable, records, sectioned, linking⟩
    obtain ⟨root', s, ran⟩ := decides.mpr acceptable
    have does := process_does acceptable.formed base verbose enough sectioned
    obtain ⟨_, _, ran', rfl⟩ := EStateM.Ends.returns does ran
    cases linking.symm.trans ran'
    exact ⟨s, ran, rfl⟩

theorem process_returns_iff_forwardPointer :
    ∃ root linked, Acceptable forwardPointer true ∧
      ∃ records, Sectioned forwardPointer records ∧
        (linkAll records).run { graph := ⟨[some .void]⟩ } = .ok root linked := by
  have ran : made ((process forwardPointer 100 true).run { graph := ⟨[some .void]⟩ }) =
      some (⟨3⟩, [some .void, some (.elfSymbol ⟨"a", none, true, .object, .global, .default, none,
        some ⟨2⟩, none⟩), some (.pointerReference ⟨.pointer, ⟨1⟩⟩),
        some (.symbols ⟨[(⟨"", "a"⟩, ⟨1⟩)], by decide⟩)]) := by
    decide +kernel
  obtain ⟨s, ran, _⟩ := returns_of_made ran
  have iff := process_returns_iff forwardPointer ⟨[some .void]⟩ true 100 (by decide +kernel)
    ⟨3⟩ s.quiet
  exact ⟨⟨3⟩, s.quiet, iff.mp ⟨s, ran, rfl⟩⟩

end Stg.Btf
