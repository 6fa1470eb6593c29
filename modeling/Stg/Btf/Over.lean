import Stg.Over
import Stg.Btf.Reader

set_option autoImplicit false

/- The reader of BTF does the same whatever graph it adds to. -/
namespace Stg.Btf

open Relational (Lifting)
open Relabel (relabel)

variable {base : Graph}

/-- The state of the reader that adds to the base: every id it holds is shifted. -/
def Structs.beneath (base : Graph) (s : Structs) : Structs where
  graph := base.beneath s.graph
  void := s.void.map base.beyond
  variadic := s.variadic.map base.beyond
  btfTypeIds := relabel (.refl _) base.beyond s.btfTypeIds
  btfSymbols := s.btfSymbols.rename base.beyond
  reads := s.reads

theorem Structs.under : Beneath base (Structs.beneath base) := ⟨fun _ => rfl, fun _ _ => rfl⟩

/-- Readers of the same input, the second of which adds to the base. -/
abbrev reading (base : Graph) : Lifting Error Reading Reading :=
  Lifting.stateful Error fun s s' => s' = s.beneath base

/-- The computation does the same and returns the same. -/
abbrev Unmoved (base : Graph) {α : Type} (call : Reading α) : Prop :=
  (reading base).rel (fun value value' => value' = value) call call

/-- After a first part that only reads, both go on with the same value. -/
theorem unmoved_bind {α β β' : Type} {R : β → β' → Prop} {call : Reading α} {rest : α → Reading β}
    {rest' : α → Reading β'} (first : Unmoved base call)
    (second : ∀ value, (reading base).rel R (rest value) (rest' value)) :
    (reading base).rel R (call >>= rest) (call >>= rest') := Lifting.bind_same first second

theorem unmoved_pure {α : Type} (value : α) : Unmoved base (pure value) :=
  (reading base).pure rfl

/-- A result taken from both graphs may differ by the shift. -/
theorem ofExcept_over {α : Type} {g : α → α} {result result' : Except Error α}
    (same : result' = result.map g) :
    (reading base).rel (fun value value' => value' = g value) (MonadExcept.ofExcept result)
      (MonadExcept.ofExcept result') := by
  subst same
  cases result with
  | error reason => exact (reading base).throw reason
  | ok value => exact (reading base).pure rfl

theorem unmoved_check (ok : Bool) (message : String) : Unmoved base (check ok message) := by
  unfold check
  split
  · exact unmoved_pure _
  · exact (reading base).throw _

theorem unmoved_pull (memory : MemoryRange) (size count : Nat) :
    Unmoved base (memory.pull size count) :=
  unmoved_bind (unmoved_check _ _) fun _ => unmoved_pure _

section

variable (data : List UInt8)

/-- The bytes are the same and so are the bounds; the log of reads has no ids. -/
theorem unmoved_fetch (region : Region) (offset size : Nat) :
    Unmoved base (fetch data region offset size) := by
  refine (reading base).bind (Lifting.stateful_modify ?_) fun _ _ _ => ?_
  · rintro s _ rfl
    rfl
  · split
    · exact unmoved_pure _
    · exact (reading base).throw _

theorem unmoved_u32 (region : Region) (offset : Nat) : Unmoved base (u32 data region offset) :=
  unmoved_bind (unmoved_fetch data region offset 4) fun _ => unmoved_pure _

theorem unmoved_readType (t : Nat) : Unmoved base (readType data t) :=
  unmoved_bind (unmoved_u32 data _ _) fun _ => unmoved_bind (unmoved_u32 data _ _) fun _ =>
    unmoved_bind (unmoved_u32 data _ _) fun _ => unmoved_pure _

theorem unmoved_readArray (array : Nat) : Unmoved base (readArray data array) :=
  unmoved_bind (unmoved_u32 data _ _) fun _ => unmoved_bind (unmoved_u32 data _ _) fun _ =>
    unmoved_bind (unmoved_u32 data _ _) fun _ => unmoved_pure _

theorem unmoved_readMember (member : Nat) : Unmoved base (readMember data member) :=
  unmoved_bind (unmoved_u32 data _ _) fun _ => unmoved_bind (unmoved_u32 data _ _) fun _ =>
    unmoved_bind (unmoved_u32 data _ _) fun _ => unmoved_pure _

theorem unmoved_readEnum (enum : Nat) : Unmoved base (readEnum data enum) :=
  unmoved_bind (unmoved_u32 data _ _) fun _ => unmoved_bind (unmoved_u32 data _ _) fun _ =>
    unmoved_pure _

theorem unmoved_readParam (param : Nat) : Unmoved base (readParam data param) :=
  unmoved_bind (unmoved_u32 data _ _) fun _ => unmoved_bind (unmoved_u32 data _ _) fun _ =>
    unmoved_pure _

/-- A name ends at the same byte. -/
theorem unmoved_findNull (count position : Nat) : Unmoved base (findNull data count position) := by
  induction count generalizing position with
  | zero => exact unmoved_pure _
  | succ count ih =>
    refine unmoved_bind (unmoved_fetch data .strings position 1) fun bytes => ?_
    split
    · exact unmoved_pure _
    · exact ih (position + 1)

theorem unmoved_getName (strings : MemoryRange) (nameOff : UInt32) :
    Unmoved base (getName data strings nameOff) :=
  unmoved_bind (unmoved_check _ _) fun _ => unmoved_bind (unmoved_findNull data _ _) fun _ =>
    unmoved_bind (unmoved_check _ _) fun _ => unmoved_bind (unmoved_fetch data _ _ _) fun _ =>
      unmoved_pure _

end

/- Ids. -/

/-- The shared node is made once in either reader, at the same moment. -/
theorem getVoid_over : (reading base).rel (Beyond base) getVoid getVoid :=
  Structs.under.getShared (fun _ => rfl) (fun _ _ => rfl) rfl

theorem getVariadic_over : (reading base).rel (Beyond base) getVariadic getVariadic :=
  Structs.under.getShared (fun _ => rfl) (fun _ _ => rfl) rfl

/-- An id allocated in the one is the shift of that allocated in the other. -/
theorem getIdRaw_over (btfIndex : UInt32) :
    (reading base).rel (Beyond base) (getIdRaw btfIndex) (getIdRaw btfIndex) := by
  refine (reading base).bind Lifting.stateful_get ?_
  rintro s _ rfl
  have looked : (s.beneath base).btfTypeIds.lookup btfIndex =
      (s.btfTypeIds.lookup btfIndex).map base.beyond :=
    Relabel.lookup_relabel (.refl _) base.beyond s.btfTypeIds btfIndex
  rw [looked]
  cases s.btfTypeIds.lookup btfIndex with
  | some id => exact (reading base).pure rfl
  | none =>
    refine (reading base).bind Lifting.stateful_get ?_
    rintro s _ rfl
    have allocated : (s.beneath base).graph.allocate =
        (base.beyond s.graph.allocate.1, base.beneath s.graph.allocate.2) :=
          base.over_allocate s.graph
    rw [allocated]
    refine (reading base).bind (Lifting.stateful_modify ?_) fun _ _ _ => (reading base).pure rfl
    rintro s' _ rfl
    have emplaced := Relabel.relabel_emplace (.refl _) base.beyond s'.btfTypeIds btfIndex
      ⟨s.graph.nodes.length⟩
    simp only [Structs.beneath, Graph.allocate, emplaced, Function.Embedding.refl_apply]

theorem getId_over (btfIndex : UInt32) :
    (reading base).rel (Beyond base) (getId btfIndex) (getId btfIndex) := by
  unfold getId
  split
  · exact getIdRaw_over btfIndex
  · exact getVoid_over

theorem getParameterId_over (btfIndex : UInt32) :
    (reading base).rel (Beyond base) (getParameterId btfIndex) (getParameterId btfIndex) := by
  unfold getParameterId
  split
  · exact getIdRaw_over btfIndex
  · exact getVariadic_over

/-- `Graph::Set` finds the slot in the same state. -/
theorem define_over (btfIndex : UInt32) (type : Node) :
    (reading base).rel (fun _ _ => True) (define btfIndex type)
      (define btfIndex (type.rename base.beyond)) := by
  refine (reading base).bind (getIdRaw_over btfIndex) ?_
  rintro id _ rfl
  refine (reading base).bind Lifting.stateful_get ?_
  rintro s _ rfl
  refine (reading base).bind (ofExcept_over (base.over_set s.graph id type)) ?_
  rintro graph _ rfl
  refine Lifting.stateful_modify ?_
  rintro s _ rfl
  rfl

section

variable (data : List UInt8) (strings : MemoryRange)

/-- A loop over members makes their nodes in the same order. -/
theorem buildMembers_over (kflag : Bool) (members vlen : Nat) :
    (reading base).rel (fun ids ids' => ids' = ids.map base.beyond)
      (buildMembers data strings kflag members vlen)
        (buildMembers data strings kflag members vlen) := by
  induction vlen generalizing members with
  | zero => exact (reading base).pure rfl
  | succ vlen ih =>
    refine unmoved_bind (unmoved_readMember data members) fun rawMember => ?_
    refine unmoved_bind (unmoved_getName data strings rawMember.nameOff) fun name => ?_
    refine (reading base).bind (getId_over rawMember.type) ?_
    rintro typeId _ rfl
    refine (reading base).bind (Structs.under.add (.member _)) ?_
    rintro id _ rfl
    refine (reading base).bind (ih (members + 12)) ?_
    rintro rest _ rfl
    exact (reading base).pure rfl

/-- Enumerators have no ids at all. -/
theorem unmoved_buildEnums (enums vlen : Nat) :
    Unmoved base (buildEnums data strings enums vlen) := by
  induction vlen generalizing enums with
  | zero => exact unmoved_pure _
  | succ vlen ih =>
    refine unmoved_bind (unmoved_readEnum data enums) fun enum => ?_
    refine unmoved_bind (unmoved_getName data strings enum.nameOff) fun name => ?_
    exact unmoved_bind (ih (enums + 8)) fun rest => unmoved_pure _

theorem buildParams_over (params vlen : Nat) :
    (reading base).rel (fun parameters parameters' =>
      parameters' = parameters.map (Parameter.beneath base))
      (buildParams data strings params vlen) (buildParams data strings params vlen) := by
  induction vlen generalizing params with
  | zero => exact (reading base).pure rfl
  | succ vlen ih =>
    refine unmoved_bind (unmoved_readParam data params) fun param => ?_
    refine unmoved_bind (unmoved_getName data strings param.nameOff) fun name => ?_
    refine (reading base).bind (getParameterId_over param.type) ?_
    rintro typeId _ rfl
    refine (reading base).bind (ih (params + 8)) ?_
    rintro rest _ rfl
    exact (reading base).pure rfl

/- The records, one by one. -/

variable (t : BtfType) (btfIndex : UInt32) (memory : MemoryRange)

/-- A record ends with the definition of its node. -/
theorem define_pure {type type' : Node} (same : type' = type.rename base.beyond)
    (memory : MemoryRange) :
    (reading base).rel (fun rest rest' => rest' = rest)
      (do
        define btfIndex type
        return memory)
      (do
        define btfIndex type'
        return memory) := by
  subst same
  exact (reading base).bind (define_over btfIndex type) fun _ _ _ => unmoved_pure memory

/-- A record that refers to nothing defines the same node. -/
theorem unmoved_buildInt : Unmoved base (buildInt data strings t btfIndex memory) := by
  refine unmoved_bind (unmoved_pull memory 4 1) fun (info, memory) => ?_
  refine unmoved_bind (unmoved_u32 data .types info) fun info => ?_
  refine unmoved_bind (unmoved_getName data strings t.nameOff) fun name => ?_
  refine unmoved_bind (unmoved_check _ _) fun _ => ?_
  exact define_pure btfIndex rfl memory

/-- A record that refers to a type refers to its shift. -/
theorem unmoved_buildPtr : Unmoved base (buildPtr t btfIndex memory) := by
  refine (reading base).bind (getId_over t.sizeOrType) ?_
  rintro typeId _ rfl
  exact define_pure btfIndex rfl memory

theorem unmoved_buildTypedef : Unmoved base (buildTypedef data strings t btfIndex memory) := by
  refine unmoved_bind (unmoved_getName data strings t.nameOff) fun name => ?_
  refine (reading base).bind (getId_over t.sizeOrType) ?_
  rintro typeId _ rfl
  exact define_pure btfIndex rfl memory

theorem unmoved_buildQualified (qualifier : Qualifier) :
    Unmoved base (buildQualified t btfIndex memory qualifier) := by
  refine (reading base).bind (getId_over t.sizeOrType) ?_
  rintro typeId _ rfl
  exact define_pure btfIndex rfl memory

theorem unmoved_buildArray : Unmoved base (buildArray data btfIndex memory) := by
  refine unmoved_bind (unmoved_pull memory 12 1) fun (array, memory) => ?_
  refine unmoved_bind (unmoved_readArray data array) fun array => ?_
  refine (reading base).bind (getId_over array.type) ?_
  rintro typeId _ rfl
  exact define_pure btfIndex rfl memory

theorem unmoved_buildStructUnion (kind : StructUnion.Kind) :
    Unmoved base (buildStructUnion data strings t btfIndex memory kind) := by
  refine unmoved_bind (unmoved_getName data strings t.nameOff) fun name => ?_
  refine unmoved_bind (unmoved_pull memory 12 t.vlen) fun (btfMembers, memory) => ?_
  refine (reading base).bind (buildMembers_over data strings t.kflag btfMembers t.vlen) ?_
  rintro members _ rfl
  exact define_pure btfIndex rfl memory

theorem unmoved_buildEnum : Unmoved base (buildEnum data strings t btfIndex memory) := by
  refine unmoved_bind (unmoved_getName data strings t.nameOff) fun name => ?_
  refine unmoved_bind (unmoved_pull memory 8 t.vlen) fun (enums, memory) => ?_
  refine unmoved_bind (unmoved_buildEnums data strings enums t.vlen) fun enumerators => ?_
  exact define_pure btfIndex rfl memory

theorem unmoved_buildForward : Unmoved base (buildForward data strings t btfIndex memory) := by
  refine unmoved_bind (unmoved_getName data strings t.nameOff) fun name => ?_
  exact define_pure btfIndex rfl memory

/-- Keys of the symbols are not shifted, so the check for duplicates has the same outcome. -/
theorem buildSymbol_over (symbolType : ElfSymbol.SymbolType) (name : String) :
    (reading base).rel (fun _ _ => True) (buildSymbol t btfIndex symbolType name)
      (buildSymbol t btfIndex symbolType name) := by
  refine (reading base).bind (getId_over t.sizeOrType) ?_
  rintro typeId _ rfl
  refine (reading base).bind (define_over btfIndex (.elfSymbol _)) fun _ _ _ => ?_
  refine (reading base).bind (getIdRaw_over btfIndex) ?_
  rintro id _ rfl
  refine (reading base).bind Lifting.stateful_get ?_
  rintro s _ rfl
  refine (reading base).bind (Lifting.stateful_modify ?_) fun _ _ _ => ?_
  · rintro s' _ rfl
    simp only [Structs.beneath, ← Symbols.insert_over]
  · have keys : (s.beneath base).btfSymbols.symbols.map (·.1) = s.btfSymbols.symbols.map (·.1) :=
      s.btfSymbols.keys_over
    rw [keys]
    exact (reading base).imp (unmoved_check _ _) fun _ _ _ => trivial

theorem unmoved_buildFunc : Unmoved base (buildFunc data strings t btfIndex memory) := by
  refine unmoved_bind (unmoved_getName data strings t.nameOff) fun name => ?_
  exact (reading base).bind (buildSymbol_over t btfIndex .function name) fun _ _ _ =>
    unmoved_pure memory

theorem unmoved_buildFuncProto : Unmoved base (buildFuncProto data strings t btfIndex memory) := by
  refine unmoved_bind (unmoved_pull memory 8 t.vlen) fun (params, memory) => ?_
  refine (reading base).bind (buildParams_over data strings params t.vlen) ?_
  rintro parameters _ rfl
  refine (reading base).bind (getId_over t.sizeOrType) ?_
  rintro returnTypeId _ rfl
  exact define_pure btfIndex rfl memory

theorem unmoved_buildVar : Unmoved base (buildVar data strings t btfIndex memory) := by
  refine unmoved_bind (unmoved_pull memory 4 1) fun (variable_, memory) => ?_
  refine unmoved_bind (unmoved_getName data strings t.nameOff) fun name => ?_
  refine unmoved_bind (unmoved_u32 data .types variable_) fun _ => ?_
  exact (reading base).bind (buildSymbol_over t btfIndex .object name) fun _ _ _ =>
    unmoved_pure memory

theorem unmoved_buildDatasec : Unmoved base (buildDatasec t memory) :=
  unmoved_bind (unmoved_pull memory 12 t.vlen) fun _ => unmoved_pure _

/-- The kind of a record is read from the same bytes. -/
theorem unmoved_buildOneType (t : Nat) :
    Unmoved base (buildOneType data strings t btfIndex memory) := by
  refine unmoved_bind (unmoved_readType data t) fun t => ?_
  refine unmoved_bind (unmoved_check _ _) fun _ => ?_
  cases Kind.ofNumber? t.kind with
  | none => exact (reading base).throw _
  | some kind =>
    cases kind with
    | int => exact unmoved_buildInt data strings t btfIndex memory
    | ptr => exact unmoved_buildPtr t btfIndex memory
    | typedef => exact unmoved_buildTypedef data strings t btfIndex memory
    | volatile => exact unmoved_buildQualified t btfIndex memory .volatile
    | const => exact unmoved_buildQualified t btfIndex memory .const
    | restrict => exact unmoved_buildQualified t btfIndex memory .restrict
    | array => exact unmoved_buildArray data btfIndex memory
    | struct => exact unmoved_buildStructUnion data strings t btfIndex memory .struct
    | union => exact unmoved_buildStructUnion data strings t btfIndex memory .union
    | enum => exact unmoved_buildEnum data strings t btfIndex memory
    | fwd => exact unmoved_buildForward data strings t btfIndex memory
    | func => exact unmoved_buildFunc data strings t btfIndex memory
    | funcProto => exact unmoved_buildFuncProto data strings t btfIndex memory
    | var => exact unmoved_buildVar data strings t btfIndex memory
    | datasec => exact unmoved_buildDatasec t memory

/-- The loop ends at the same record, or fails at it. -/
theorem unmoved_buildRecords (fuel : Nat) :
    Unmoved base (buildRecords data strings fuel btfIndex memory) := by
  induction fuel generalizing btfIndex memory with
  | zero => exact (reading base).throw _
  | succ fuel ih =>
    unfold buildRecords
    split
    · exact unmoved_pure _
    · refine unmoved_bind (unmoved_pull memory 12 1) fun (t, memory) => ?_
      exact unmoved_bind (unmoved_buildOneType data strings btfIndex memory t) fun memory => ih _ _

/-- The root is made last, over the shifted symbols. -/
theorem buildTypes_over (fuel : Nat) :
    (reading base).rel (Beyond base) (buildTypes data strings fuel memory)
      (buildTypes data strings fuel memory) := by
  refine unmoved_bind (unmoved_buildRecords data strings 1 memory fuel) fun _ => ?_
  refine (reading base).bind Lifting.stateful_get ?_
  rintro s _ rfl
  exact Structs.under.add (.symbols s.btfSymbols)

theorem unmoved_printStrings (fuel : Nat) : Unmoved base (printStrings data fuel memory) := by
  induction fuel generalizing memory with
  | zero => exact (reading base).throw _
  | succ fuel ih =>
    unfold printStrings
    split
    · exact unmoved_pure _
    · refine unmoved_bind (unmoved_findNull data _ _) fun position => ?_
      refine unmoved_bind (unmoved_check _ _) fun _ => ?_
      refine unmoved_bind (unmoved_pull memory 1 _) fun (text, memory) => ?_
      exact unmoved_bind (unmoved_fetch data _ _ _) fun _ => ih memory

/-- Printing may fail, but it does so in both. -/
theorem unmoved_ifVerbose (verbose : Bool) {action : Reading Unit} (unmoved : Unmoved base action) :
    Unmoved base (ifVerbose verbose action) := by
  cases verbose
  · exact unmoved_pure _
  · exact unmoved

theorem unmoved_printHeader : Unmoved base (printHeader data) :=
  unmoved_bind (unmoved_fetch data _ _ _) fun _ => unmoved_bind (unmoved_fetch data _ _ _) fun _ =>
    unmoved_bind (unmoved_fetch data _ _ _) fun _ => unmoved_bind (unmoved_u32 data _ _) fun _ =>
      unmoved_bind (unmoved_u32 data _ _) fun _ => unmoved_bind (unmoved_u32 data _ _) fun _ =>
        unmoved_bind (unmoved_u32 data _ _) fun _ => unmoved_bind (unmoved_u32 data _ _) fun _ =>
          unmoved_pure _

theorem unmoved_readHeader (verbose : Bool) : Unmoved base (readHeader data verbose) := by
  refine unmoved_bind (unmoved_check _ _) fun _ => ?_
  refine unmoved_bind (unmoved_ifVerbose verbose (unmoved_printHeader data)) fun _ => ?_
  refine unmoved_bind (unmoved_fetch data _ _ _) fun _ =>
    unmoved_bind (unmoved_check _ _) fun _ => ?_
  exact unmoved_bind (unmoved_u32 data _ _) fun _ => unmoved_bind (unmoved_u32 data _ _) fun _ =>
    unmoved_bind (unmoved_u32 data _ _) fun _ => unmoved_bind (unmoved_u32 data _ _) fun _ =>
      unmoved_bind (unmoved_u32 data _ _) fun _ => unmoved_pure _

theorem unmoved_checkSections (header : BtfHeader) : Unmoved base (checkSections data header) :=
  unmoved_bind (unmoved_check _ _) fun _ => unmoved_bind (unmoved_check _ _) fun _ =>
    unmoved_bind (unmoved_check _ _) fun _ => unmoved_bind (unmoved_check _ _) fun _ =>
      unmoved_bind (unmoved_check _ _) fun _ => unmoved_bind (unmoved_check _ _) fun _ =>
        unmoved_check _ _

/-- The whole of `Process` after a graph does what it does by itself. -/
theorem process_over (fuel : Nat) (verbose : Bool) :
    (reading base).rel (Beyond base) (process data fuel verbose) (process data fuel verbose) := by
  refine unmoved_bind (unmoved_readHeader data verbose) fun header => ?_
  refine unmoved_bind (unmoved_checkSections data header) fun _ => ?_
  refine (reading base).bind (buildTypes_over data header.stringSection header.typeSection fuel) ?_
  rintro root _ rfl
  exact unmoved_bind (unmoved_ifVerbose verbose
    (unmoved_printStrings data header.stringSection fuel))
    fun _ => (reading base).pure rfl

end

end Stg.Btf
