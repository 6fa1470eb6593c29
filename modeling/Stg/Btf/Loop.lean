import Stg.Btf.Types

set_option autoImplicit false

/- Every kind of record, and the loop over the records. -/
namespace Stg.Btf

variable {input : Input} {base : Graph} {records : List Record} {record : Record} {s s' : Structs}
  {index : UInt32} {memory : MemoryRange} {start : Nat}

/-- One record has been read: it is what the input says, and the cursor is past it. -/
def Built (input : Input) (base : Graph) (records : List Record) (start : Nat)
    (memory' : MemoryRange) (s' : Structs) : Prop :=
  ∃ record, recordAt input.data input.strings start = some record ∧
    memory' = ⟨start + (typeAt input.data start).size, input.types.limit⟩ ∧
    memory'.start ≤ memory'.limit ∧
    Inv input base (records ++ [record]) [] s' ∧ Named (records ++ [record]) s'

theorem buildSymbol_ends {symbolType : ElfSymbol.SymbolType} {name : String} {t : BtfType}
    (inv : Inv input base records [] s) (named : Named records s)
    (next : index.toNat = records.length + 1) :
    (buildSymbol t index symbolType name).Ends s
      (fun _ s' =>
        Inv input base (records ++ [.symbol symbolType name t.sizeOrType]) [] s' ∧
          Named (records ++ [.symbol symbolType name t.sizeOrType]) s')
      (Raised input) := by
  have positive : index ≠ 0 := by
    intro zero
    rw [zero] at next
    cases next
  unfold buildSymbol
  apply EStateM.Ends.bind (getId_keeps inv _)
  rintro typeId s₁ ⟨inv₁, grows₁, denotes⟩
  have defined := @define_keeps input base records (.symbol symbolType name t.sizeOrType) [] s₁
    index _ inv₁ next rfl ⟨typeId, denotes, rfl⟩ (by simp)
  apply EStateM.Ends.bind defined
  rintro _ s₂ ⟨inv₂, grows₂, _⟩
  apply EStateM.Ends.bind (getIdRaw_keeps inv₂ positive)
  rintro id s₃ ⟨inv₃, grows₃, slot⟩
  have named₃ : Named records s₃ := named.grow inv (grows₁.trans (grows₂.trans grows₃))
  have filled : ∀ index record, definition records index = some record →
      ∃ id, s₃.btfTypeIds.lookup index = some id := by
    intro index' record defined'
    obtain ⟨id', _, slot', _⟩ := inv₃.linked index' record (definition_snoc.mpr (.inr defined'))
    exact ⟨id', slot'⟩
  apply EStateM.Ends.get_bind
  have changed : (modify fun s : Structs =>
        { s with btfSymbols := s₃.btfSymbols.insert ⟨"", name⟩ id } : Reading Unit).Ends s₃
      (fun _ s' => s' = { s₃ with btfSymbols := s₃.btfSymbols.insert ⟨"", name⟩ id })
      (Raised input) := .modified rfl
  apply EStateM.Ends.bind changed
  rintro _ _ rfl
  have kept : Inv input base (records ++ [.symbol symbolType name t.sizeOrType]) []
      { s₃ with btfSymbols := s₃.btfSymbols.insert ⟨"", name⟩ id } :=
    inv₃.same rfl rfl rfl rfl inv₃.reads
  unfold check
  split
  · rename_i fresh
    exact ⟨kept, named₃.symbol next rfl rfl slot (of_decide_eq_true fresh) filled⟩
  · exact ⟨⟨_, rfl, different_text (by decide) (by decide)⟩, inv₃.reads⟩

theorem built_of_ends {call : Reading MemoryRange} {kind : Kind}
    (ends : call.Ends s
      (fun memory' s' =>
        Past ⟨start + 12, input.types.limit⟩ ((typeAt input.data start).payloadSize kind)
          memory' s' ∧
          Inv input base (records ++ [recordOf input.data input.strings (typeAt input.data start)
            (start + 12) kind]) [] s' ∧
          Named (records ++ [recordOf input.data input.strings (typeAt input.data start)
            (start + 12) kind]) s')
      (Raised input))
    (known : Kind.ofNumber? (typeAt input.data start).kind = some kind) :
    call.Ends s (Built input base records start) (Raised input) := by
  apply ends.imp
  · rintro _ s' ⟨⟨rfl, within⟩, inv', named'⟩
    have size : (typeAt input.data start).size =
        12 + (typeAt input.data start).payloadSize kind := by
      rw [BtfType.size, known]
      rfl
    refine ⟨_, by rw [recordAt, known]; rfl, ?_, within, inv', named'⟩
    rw [size, Nat.add_assoc]
  · exact fun _ _ raised => raised

theorem Keeps.built {call : Reading MemoryRange} {kind : Kind}
    (keeps : Keeps input base (records ++ [recordOf input.data input.strings
      (typeAt input.data start) (start + 12) kind]) [] s call
      (Past ⟨start + 12, input.types.limit⟩ ((typeAt input.data start).payloadSize kind)))
    (inv : Inv input base records [] s) (named : Named records s)
    (known : Kind.ofNumber? (typeAt input.data start).kind = some kind)
    (nameless : (recordOf input.data input.strings (typeAt input.data start) (start + 12)
      kind).symbolName = none) :
    call.Ends s (Built input base records start) (Raised input) := by
  apply built_of_ends _ known
  apply keeps.imp
  · rintro memory' s' ⟨inv', grows, past⟩
    exact ⟨past, inv', (named.grow inv grows).other nameless⟩
  · exact fun _ _ raised => raised

theorem Inv.datasec (inv : Inv input base records [] s) :
    Inv input base (records ++ [.datasec]) [] s := by
  have same : definition (records ++ [.datasec]) = definition records := by
    funext index
    rw [definition_append]
    split
    · rename_i last
      have undefined : definition records index = none := by
        unfold definition
        split
        · rfl
        · rw [last, Nat.add_sub_cancel, List.getElem?_eq_none (le_refl _)]
          rfl
      rw [undefined]
      rfl
    · rfl
  refine ⟨inv.kept, inv.void, inv.variadic, inv.slot, inv.injective, ?_, ?_, ?_, inv.reads⟩
  · rw [same]
    exact inv.unset
  · rw [same]
    exact inv.linked
  · intro id node new got
    cases inv.made id node new got with
    | void shared => exact .void shared
    | variadic shared => exact .variadic shared
    | record defined slot => exact .record (same ▸ defined) slot
    | member listed described => exact .member (same ▸ listed) described

theorem buildOneType_ends (inv : Inv input base records [] s) (named : Named records s)
    (next : index.toNat = records.length + 1) (after : input.types.start ≤ start)
    (within : start + 12 ≤ input.types.limit) :
    (buildOneType input.data input.strings start index ⟨start + 12, input.types.limit⟩).Ends s
      (Built input base records start) (Raised input) := by
  unfold buildOneType
  apply EStateM.Ends.bind (inv.peek (readType_peeks · after within))
  rintro _ s₁ ⟨inv₁, grows₁, rfl⟩
  apply EStateM.Ends.bind (inv₁.peek (check_peeks · (by decide)))
  rintro _ s₂ ⟨inv₂, grows₂, _⟩
  have named₂ : Named records s₂ := named.grow inv (grows₁.trans grows₂)
  have later : input.types.start ≤ (⟨start + 12, input.types.limit⟩ : MemoryRange).start := by
    dsimp only
    omega
  have here : (⟨start + 12, input.types.limit⟩ : MemoryRange).limit = input.types.limit := rfl
  have within : (⟨start + 12, input.types.limit⟩ : MemoryRange).start ≤
    (⟨start + 12, input.types.limit⟩ : MemoryRange).limit := within
  cases known : Kind.ofNumber? (typeAt input.data start).kind with
  | none => exact ⟨⟨_, rfl, by decide⟩, inv₂.reads⟩
  | some kind =>
    cases kind with
    | int => exact (buildInt_keeps inv₂ next later here).built inv₂ named₂ known rfl
    | ptr => exact (buildPtr_keeps inv₂ next within).built inv₂ named₂ known rfl
    | array => exact (buildArray_keeps inv₂ next later here).built inv₂ named₂ known rfl
    | struct =>
      exact (buildStructUnion_keeps inv₂ next .struct later here).built inv₂ named₂ known rfl
    | union =>
      exact (buildStructUnion_keeps inv₂ next .union later here).built inv₂ named₂ known rfl
    | enum => exact (buildEnum_keeps inv₂ next later here).built inv₂ named₂ known rfl
    | fwd => exact (buildForward_keeps inv₂ next within).built inv₂ named₂ known rfl
    | typedef => exact (buildTypedef_keeps inv₂ next within).built inv₂ named₂ known rfl
    | volatile =>
      exact (buildQualified_keeps inv₂ next .volatile within).built inv₂ named₂ known rfl
    | const => exact (buildQualified_keeps inv₂ next .const within).built inv₂ named₂ known rfl
    | restrict =>
      exact (buildQualified_keeps inv₂ next .restrict within).built inv₂ named₂ known rfl
    | func =>
      apply built_of_ends _ known
      unfold buildFunc
      apply EStateM.Ends.bind (inv₂.peek (getName_peeks · _))
      rintro _ s₃ ⟨inv₃, grows₃, rfl⟩
      apply EStateM.Ends.bind (buildSymbol_ends inv₃ (named₂.grow inv₂ grows₃) next)
      rintro _ s₄ ⟨inv₄, named₄⟩
      exact ⟨⟨rfl, within⟩, inv₄, named₄⟩
    | funcProto => exact (buildFuncProto_keeps inv₂ next later here).built inv₂ named₂ known rfl
    | var =>
      apply built_of_ends _ known
      unfold buildVar
      apply EStateM.Ends.bind (inv₂.peek (pull_peeks · _ 4 1))
      rintro _ s₃ ⟨inv₃, grows₃, rfl, inside⟩
      apply EStateM.Ends.bind (inv₃.peek (getName_peeks · _))
      rintro _ s₄ ⟨inv₄, grows₄, rfl⟩
      apply EStateM.Ends.bind (inv₄.peek (word_peeks · (start + 12) later inside))
      rintro _ s₅ ⟨inv₅, grows₅, rfl⟩
      have named₅ := named₂.grow inv₂ (grows₃.trans (grows₄.trans grows₅))
      apply EStateM.Ends.bind (buildSymbol_ends inv₅ named₅ next)
      rintro _ s₆ ⟨inv₆, named₆⟩
      exact ⟨⟨rfl, inside⟩, inv₆, named₆⟩
    | datasec =>
      apply built_of_ends _ known
      unfold buildDatasec
      apply EStateM.Ends.bind (inv₂.peek (pull_peeks · _ 12 _))
      rintro _ s₃ ⟨inv₃, grows₃, rfl, inside⟩
      exact ⟨⟨rfl, inside⟩, inv₃.datasec, (named₂.grow inv₂ grows₃).other rfl⟩

/-- The loop over the records. A record is at least as long as its header, so the fuel
need not be more than the length of what is left. -/
theorem buildRecords_ends {fuel : Nat} (inv : Inv input base records [] s)
    (named : Named records s) (next : index.toNat = records.length + 1)
    (after : input.types.start ≤ start) (within : start ≤ input.types.limit)
    (counted : input.types.start + 12 * records.length ≤ start)
    (short : input.types.limit - input.types.start < 2 ^ 32)
    (enough : input.types.limit - start < fuel) :
    (buildRecords input.data input.strings fuel index ⟨start, input.types.limit⟩).Ends s
      (fun memory' s' => memory' = ⟨input.types.limit, input.types.limit⟩ ∧
        ∃ rest, Records input.data input.strings start input.types.limit rest ∧
          Inv input base (records ++ rest) [] s' ∧ Named (records ++ rest) s')
      (Raised input) := by
  induction fuel generalizing records s index start with
  | zero => omega
  | succ fuel ih =>
    unfold buildRecords
    split
    · rename_i ended
      have last : start = input.types.limit := by simpa [MemoryRange.empty] using ended
      subst last
      exact ⟨rfl, [], .nil _, by rwa [List.append_nil], by rwa [List.append_nil]⟩
    · apply EStateM.Ends.bind (inv.peek (pull_peeks · _ 12 1))
      rintro _ s₁ ⟨inv₁, grows₁, rfl, inside⟩
      dsimp only at inside
      apply EStateM.Ends.bind (buildOneType_ends inv₁ (named.grow inv grows₁) next after inside)
      rintro _ s₂ ⟨record, said, rfl, within₂, inv₂, named₂⟩
      dsimp only at within₂
      have size : 12 ≤ (typeAt input.data start).size := by
        unfold BtfType.size
        omega
      have length : (records ++ [record]).length = records.length + 1 := by simp
      have next₂ : (index + 1).toNat = (records ++ [record]).length + 1 := by
        rw [UInt32.toNat_add, next, length]
        exact Nat.mod_eq_of_lt (by show records.length + 1 + 1 < 2 ^ 32; omega)
      apply (ih inv₂ named₂ next₂ (by omega) within₂ (by omega) (by omega)).imp
      · rintro memory' s₃ ⟨ended, rest, tiled, inv₃, named₃⟩
        rw [List.append_assoc] at inv₃ named₃
        exact ⟨ended, record :: rest, .cons said tiled, inv₃, named₃⟩
      · exact fun _ _ raised => raised

end Stg.Btf
