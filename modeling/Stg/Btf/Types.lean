import Stg.Btf.Build

set_option autoImplicit false

/- Each kind of record makes the node that the record says. -/
namespace Stg.Btf

variable {input : Input} {base : Graph} {records : List Record} {record : Record}
  {pending : List RawMember} {s s' : Structs} {index : UInt32} {t : BtfType}
  {memory : MemoryRange}

/-- The member's node is new and nothing refers to it yet, so it may wait for the record
that lists it. -/
theorem addMember_keeps (inv : Inv input base records pending s) (raw : RawMember) {typeId : Id}
    (denotes : s.Denotes raw.type typeId) :
    Keeps input base records (pending ++ [raw]) s
      (add (.member ⟨raw.name, typeId, raw.offset, raw.bitsize⟩))
      (fun id s' => s'.HoldsMember base raw id) := by
  refine add_ends _ ?_
  have grows : s.Grows { s with graph := ⟨s.graph.nodes ++
      [some (.member ⟨raw.name, typeId, raw.offset, raw.bitsize⟩)]⟩ } :=
    ⟨⟨Graph.extends_append _ _, fun _ held => held, fun _ held => held, fun _ _ held => held⟩, rfl⟩
  have described := grows.describesMember ⟨typeId, denotes, rfl⟩
  refine ⟨inv.added grows rfl rfl rfl (fun _ => .inl) (fun _ => .inl)
    (fun _ => List.mem_append_left _) (.member (.inl (by simp)) described), grows,
    inv.kept.length, _, ?_, described⟩
  exact Graph.get_eq_ok.mpr List.getElem?_concat_length

/-- Each round of the loop over the members makes one more of the raw members wait. -/
theorem buildMembers_keeps {kflag : Bool} {members vlen : Nat}
    (inv : Inv input base records pending s) (after : input.types.start ≤ members)
    (before : members + 12 * vlen ≤ input.types.limit) :
    Keeps input base records (pending ++ rawMembers input.data input.strings kflag members vlen) s
      (buildMembers input.data input.strings kflag members vlen)
      (fun ids s' => List.Forall₂ (s'.HoldsMember base)
        (rawMembers input.data input.strings kflag members vlen) ids) := by
  induction vlen generalizing members pending s with
  | zero =>
    unfold rawMembers
    rw [List.append_nil]
    exact Keeps.pure inv .nil
  | succ vlen ih =>
    unfold buildMembers rawMembers
    apply (inv.peek (readMember_peeks · after (by omega))).bind
    rintro _ s₁ inv₁ _ rfl
    apply (inv₁.peek (getName_peeks · _)).bind
    rintro _ s₂ inv₂ _ rfl
    apply (getId_keeps inv₂ _).bind
    intro typeId s₃ inv₃ _ denotes
    apply (addMember_keeps inv₃ (rawMemberAt input.data input.strings kflag members) denotes).bind
    intro id s₄ inv₄ _ held
    apply (ih inv₄ (by omega) (by omega)).bind
    intro ids s₅ inv₅ grows held'
    rw [List.append_assoc] at inv₅
    exact Keeps.pure inv₅ (.cons (grows.holdsMember _ _ held) held')

theorem buildEnums_keeps {enums vlen : Nat} (inv : Inv input base records pending s)
    (after : input.types.start ≤ enums) (before : enums + 8 * vlen ≤ input.types.limit) :
    Keeps input base records pending s (buildEnums input.data input.strings enums vlen)
      (fun enumerators _ => enumerators = rawEnumerators input.data input.strings enums vlen) := by
  induction vlen generalizing enums s with
  | zero => exact Keeps.pure inv rfl
  | succ vlen ih =>
    unfold buildEnums rawEnumerators
    apply (inv.peek (readEnum_peeks · after (by omega))).bind
    rintro _ s₁ inv₁ _ rfl
    apply (inv₁.peek (getName_peeks · _)).bind
    rintro _ s₂ inv₂ _ rfl
    apply (ih inv₂ (by omega) (by omega)).bind
    rintro _ s₃ inv₃ _ rfl
    exact Keeps.pure inv₃ rfl

/-- Parameters have no nodes: only their types are asked for. -/
theorem buildParams_keeps {params vlen : Nat} (inv : Inv input base records pending s)
    (after : input.types.start ≤ params) (before : params + 8 * vlen ≤ input.types.limit) :
    Keeps input base records pending s (buildParams input.data input.strings params vlen)
      (fun parameters s' => List.Forall₂ s'.KeepsParameter
        (rawParameters input.data input.strings params vlen) parameters) := by
  induction vlen generalizing params s with
  | zero => exact Keeps.pure inv .nil
  | succ vlen ih =>
    unfold buildParams rawParameters
    apply (inv.peek (readParam_peeks · after (by omega))).bind
    rintro _ s₁ inv₁ _ rfl
    apply (inv₁.peek (getName_peeks · _)).bind
    rintro _ s₂ inv₂ _ rfl
    apply (getParameterId_keeps inv₂ _).bind
    intro typeId s₃ inv₃ _ denotes
    apply (ih inv₃ (by omega) (by omega)).bind
    intro rest s₄ inv₄ grows held
    exact Keeps.pure inv₄ (.cons ⟨rfl, grows.denotesParameter denotes⟩ held)

/-- A message with another first letter is not that of `Graph::Set`. -/
theorem different_text {text rest : String} (other : text.toList.head? ≠ some 'n')
    (filled : text ≠ "") : text ++ rest ≠ "node value already set" := by
  intro same
  have chars := congrArg (fun message : String => message.toList.head?) same
  rw [String.toList_append, List.head?_append_of_ne_nil _ (by simpa using filled)] at chars
  exact other chars

/- The kinds of records. -/

/-- The cursor has gone past `extra` bytes and is not past its limit. -/
def Past (memory : MemoryRange) (extra : Nat) (memory' : MemoryRange) (_ : Structs) : Prop :=
  memory' = ⟨memory.start + extra, memory.limit⟩ ∧ memory.start + extra ≤ memory.limit

section

/-- A record's node is set last. -/
theorem define_last {node : Node} (inv : Inv input base records pending s)
    (next : index.toNat = records.length + 1) (defines : record.defines = true)
    (describes : s.Describes base record node) (listed : ∀ raw ∈ pending, raw ∈ record.members)
    {α : Type} {value : α} {fact : α → Structs → Prop} (holds : ∀ s', fact value s') :
    Keeps input base (records ++ [record]) [] s
      (do
        define index node
        return value)
      fact := by
  apply (define_keeps inv next defines describes listed).bind
  intro _ s' inv' _ _
  exact Keeps.pure inv' (holds s')

variable (inv : Inv input base records [] s) (next : index.toNat = records.length + 1)

include inv next

/-- The last check comes before the node is set, so a failure leaves no half-made record. -/
theorem buildInt_keeps (after : input.types.start ≤ memory.start)
    (limit : memory.limit = input.types.limit) :
    Keeps input base (records ++ [.int (nameAt input.data input.strings t.nameOff)
        (encodingOf (intEncoding (u32At input.data memory.start)))
        (intBits (u32At input.data memory.start)) t.sizeOrType]) [] s
      (buildInt input.data input.strings t index memory) (Past memory 4) := by
  unfold buildInt
  apply (inv.peek (pull_peeks · memory 4 1)).bind
  rintro _ s₁ inv₁ _ ⟨rfl, inside⟩
  apply (inv₁.peek (word_peeks · _ after (by omega))).bind
  rintro _ s₂ inv₂ _ rfl
  apply (inv₂.peek (getName_peeks · _)).bind
  rintro _ s₃ inv₃ _ rfl
  have other : "BTF INT non-zero offset " ++ toString (intOffset (u32At input.data memory.start)) ++
      "\n" ≠ "node value already set" := by
    rw [String.append_assoc]
    exact different_text (by decide) (by decide)
  apply (inv₃.peek (check_peeks · other)).bind
  intro _ s₄ inv₄ _ _
  apply define_last inv₄ next
  · rfl
  · rfl
  · simp
  · exact fun _ => ⟨rfl, by omega⟩

theorem buildPtr_keeps (within : memory.start ≤ memory.limit) :
    Keeps input base (records ++ [.ptr t.sizeOrType]) [] s (buildPtr t index memory)
      (Past memory 0) := by
  unfold buildPtr
  apply (getId_keeps inv _).bind
  intro typeId s₁ inv₁ _ denotes
  apply define_last inv₁ next
  · rfl
  · exact ⟨typeId, denotes, rfl⟩
  · simp
  · exact fun _ => ⟨rfl, by omega⟩

theorem buildTypedef_keeps (within : memory.start ≤ memory.limit) :
    Keeps input base
      (records ++ [.typedef (nameAt input.data input.strings t.nameOff) t.sizeOrType]) [] s
      (buildTypedef input.data input.strings t index memory) (Past memory 0) := by
  unfold buildTypedef
  apply (inv.peek (getName_peeks · _)).bind
  rintro _ s₁ inv₁ _ rfl
  apply (getId_keeps inv₁ _).bind
  intro typeId s₂ inv₂ _ denotes
  apply define_last inv₂ next
  · rfl
  · exact ⟨typeId, denotes, rfl⟩
  · simp
  · exact fun _ => ⟨rfl, by omega⟩

theorem buildQualified_keeps (qualifier : Qualifier) (within : memory.start ≤ memory.limit) :
    Keeps input base (records ++ [.qualified qualifier t.sizeOrType]) [] s
      (buildQualified t index memory qualifier) (Past memory 0) := by
  unfold buildQualified
  apply (getId_keeps inv _).bind
  intro typeId s₁ inv₁ _ denotes
  apply define_last inv₁ next
  · rfl
  · exact ⟨typeId, denotes, rfl⟩
  · simp
  · exact fun _ => ⟨rfl, by omega⟩

theorem buildArray_keeps (after : input.types.start ≤ memory.start)
    (limit : memory.limit = input.types.limit) :
    Keeps input base (records ++ [.array (arrayAt input.data memory.start).nelems.toUInt64
        (arrayAt input.data memory.start).type]) [] s
      (buildArray input.data index memory) (Past memory 12) := by
  unfold buildArray
  apply (inv.peek (pull_peeks · memory 12 1)).bind
  rintro _ s₁ inv₁ _ ⟨rfl, inside⟩
  apply (inv₁.peek (readArray_peeks · after (by omega))).bind
  rintro _ s₂ inv₂ _ rfl
  apply (getId_keeps inv₂ _).bind
  intro typeId s₃ inv₃ _ denotes
  apply define_last inv₃ next
  · rfl
  · exact ⟨typeId, denotes, rfl⟩
  · simp
  · exact fun _ => ⟨rfl, by omega⟩

/-- The members that wait are those the record lists, and so none is left over. -/
theorem buildStructUnion_keeps (kind : StructUnion.Kind) (after : input.types.start ≤ memory.start)
    (limit : memory.limit = input.types.limit) :
    Keeps input base (records ++ [.structUnion kind (nameAt input.data input.strings t.nameOff)
        t.sizeOrType.toUInt64
        (rawMembers input.data input.strings t.kflag memory.start t.vlen)]) [] s
      (buildStructUnion input.data input.strings t index memory kind)
      (Past memory (12 * t.vlen)) := by
  unfold buildStructUnion
  apply (inv.peek (getName_peeks · _)).bind
  rintro _ s₁ inv₁ _ rfl
  apply (inv₁.peek (pull_peeks · memory 12 t.vlen)).bind
  rintro _ s₂ inv₂ _ ⟨rfl, inside⟩
  apply (buildMembers_keeps inv₂ after (by omega)).bind
  intro ids s₃ inv₃ _ held
  apply define_last inv₃ next
  · rfl
  · exact ⟨ids, held, rfl⟩
  · exact fun _ listed => listed
  · exact fun _ => ⟨rfl, by omega⟩

/-- An enumeration without enumerators is a declaration. -/
theorem buildEnum_keeps (after : input.types.start ≤ memory.start)
    (limit : memory.limit = input.types.limit) :
    Keeps input base (records ++ [.enum (nameAt input.data input.strings t.nameOff)
        (if t.vlen ≠ 0 then
          some ⟨t.sizeOrType, rawEnumerators input.data input.strings memory.start t.vlen⟩
        else none)]) [] s
      (buildEnum input.data input.strings t index memory) (Past memory (8 * t.vlen)) := by
  unfold buildEnum
  apply (inv.peek (getName_peeks · _)).bind
  rintro _ s₁ inv₁ _ rfl
  apply (inv₁.peek (pull_peeks · memory 8 t.vlen)).bind
  rintro _ s₂ inv₂ _ ⟨rfl, inside⟩
  apply (buildEnums_keeps inv₂ after (by omega)).bind
  rintro _ s₃ inv₃ _ rfl
  apply define_last inv₃ next
  · rfl
  · rfl
  · simp
  · exact fun _ => ⟨rfl, by omega⟩

theorem buildForward_keeps (within : memory.start ≤ memory.limit) :
    Keeps input base (records ++ [.forward (if t.kflag then .union else .struct)
        (nameAt input.data input.strings t.nameOff)]) [] s
      (buildForward input.data input.strings t index memory) (Past memory 0) := by
  unfold buildForward
  apply (inv.peek (getName_peeks · _)).bind
  rintro _ s₁ inv₁ _ rfl
  apply define_last inv₁ next
  · rfl
  · rfl
  · simp
  · exact fun _ => ⟨rfl, by omega⟩

/-- The return type is asked for after the parameters, whose ids it cannot change. -/
theorem buildFuncProto_keeps (after : input.types.start ≤ memory.start)
    (limit : memory.limit = input.types.limit) :
    Keeps input base (records ++ [.funcProto t.sizeOrType
        (rawParameters input.data input.strings memory.start t.vlen)]) [] s
      (buildFuncProto input.data input.strings t index memory) (Past memory (8 * t.vlen)) := by
  unfold buildFuncProto
  apply (inv.peek (pull_peeks · memory 8 t.vlen)).bind
  rintro _ s₁ inv₁ _ ⟨rfl, inside⟩
  apply (buildParams_keeps inv₁ after (by omega)).bind
  intro parameters s₂ inv₂ _ held
  apply (getId_keeps inv₂ _).bind
  intro typeId s₃ inv₃ grows denotes
  have held' := held.imp grows.keepsParameter
  apply define_last inv₃ next
  · rfl
  · exact ⟨typeId, parameters, denotes, held', rfl⟩
  · simp
  · exact fun _ => ⟨rfl, by omega⟩

end

/- The map of symbols. -/

/-- A record's definition is its own or one of an earlier record. -/
theorem definition_snoc {record' : Record} :
    definition (records ++ [record]) index = some record' ↔
      index.toNat = records.length + 1 ∧ record.defines = true ∧ record' = record ∨
        definition records index = some record' := by
  rw [definition_append]
  split
  · rename_i last
    have undefined : definition records index = none := by
      unfold definition
      split
      · rfl
      · rw [last, Nat.add_sub_cancel, List.getElem?_eq_none (le_refl _)]
        rfl
    rw [undefined, Option.filter_eq_some_iff]
    simp only [Option.some.injEq, reduceCtorEq, or_false]
    constructor
    · rintro ⟨rfl, defines⟩
      exact ⟨last, defines, rfl⟩
    · rintro ⟨_, defines, rfl⟩
      exact ⟨rfl, defines⟩
  · rename_i other
    simp [other]

theorem Named.grow (named : Named records s) (inv : Inv input base records pending s)
    (grows : s.Grows s') : Named records s' where
  distinct := named.distinct
  entries := by
    intro key id
    rw [grows.symbols, named.entries]
    constructor
    · rintro ⟨index, record, name, defined, named, keyed, slot⟩
      exact ⟨index, record, name, defined, named, keyed, grows.slots index id slot⟩
    · rintro ⟨index, record, name, defined, named, keyed, slot⟩
      obtain ⟨id', node, slot', got, describes⟩ := inv.linked index record defined
      have same := slot.symm.trans (grows.slots index id' slot')
      cases same
      exact ⟨index, record, name, defined, named, keyed, slot'⟩

/-- A record that is no symbol leaves the map as it is. -/
theorem Named.other (named : Named records s) (nameless : record.symbolName = none) :
    Named (records ++ [record]) s := by
  have older : ∀ index record' name, definition (records ++ [record]) index = some record' →
      record'.symbolName = some name → definition records index = some record' := by
    intro index record' name defined named'
    rcases definition_snoc.mp defined with ⟨_, _, rfl⟩ | old
    · rw [nameless] at named'
      cases named'
    · exact old
  constructor
  · intro key id
    rw [named.entries]
    constructor
    · rintro ⟨index, record', name, defined, named', rest⟩
      exact ⟨index, record', name, definition_snoc.mpr (.inr defined), named', rest⟩
    · rintro ⟨index, record', name, defined, named', rest⟩
      exact ⟨index, record', name, older _ _ _ defined named', named', rest⟩
  · intro index index' record₁ record₂ name defined₁ defined₂ named₁ named₂
    exact named.distinct index index' record₁ record₂ name (older _ _ _ defined₁ named₁)
      (older _ _ _ defined₂ named₂) named₁ named₂

/-- The insertion is that of a name no earlier record has, which the check after it tells. -/
theorem Named.symbol (named : Named records s) {name : String} {id : Id}
    (next : index.toNat = records.length + 1) (defines : record.defines = true)
    (named' : record.symbolName = some name) (slot : s.btfTypeIds.lookup index = some id)
    (fresh : (⟨"", name⟩ : SymbolKey) ∉ s.btfSymbols.symbols.map (·.1))
    (filled : ∀ index record, definition records index = some record →
      ∃ id, s.btfTypeIds.lookup index = some id) :
    Named (records ++ [record]) { s with btfSymbols := s.btfSymbols.insert ⟨"", name⟩ id } := by
  have only : ∀ index', index'.toNat = records.length + 1 → index' = index :=
    fun index' last => UInt32.toNat_inj.mp (last.trans next.symm)
  have other : ∀ index record, definition records index = some record →
      record.symbolName ≠ some name := by
    intro index record defined same
    obtain ⟨id, slot⟩ := filled index record defined
    have among := (named.entries _ id).mpr ⟨index, record, name, defined, same, rfl, slot⟩
    exact fresh (List.mem_map_of_mem (f := Prod.fst) among)
  constructor
  · intro key id'
    have perm : (s.btfSymbols.insert ⟨"", name⟩ id).symbols.Perm _ := Ordered.insert_perm fresh
    have among : (key, id') ∈ (s.btfSymbols.insert ⟨"", name⟩ id).symbols ↔
        (key = ⟨"", name⟩ ∧ id' = id) ∨ (key, id') ∈ s.btfSymbols.symbols := by
      rw [perm.mem_iff]
      simp
    rw [among, named.entries]
    constructor
    · rintro (⟨rfl, rfl⟩ | ⟨index', record', name', defined, rest⟩)
      · exact ⟨index, record, name, definition_snoc.mpr (.inl ⟨next, defines, rfl⟩), named', rfl,
          slot⟩
      · exact ⟨index', record', name', definition_snoc.mpr (.inr defined), rest⟩
    · rintro ⟨index', record', name', defined, named'', keyed, slot'⟩
      rcases definition_snoc.mp defined with ⟨last, _, rfl⟩ | old
      · have same := only index' last
        subst same
        rw [named'] at named''
        cases named''
        cases slot.symm.trans slot'
        exact .inl ⟨keyed, rfl⟩
      · exact .inr ⟨index', record', name', old, named'', keyed, slot'⟩
  · intro index₁ index₂ record₁ record₂ name' defined₁ defined₂ named₁ named₂
    rcases definition_snoc.mp defined₁ with ⟨last₁, _, rfl⟩ | old₁
    · rcases definition_snoc.mp defined₂ with ⟨last₂, _, rfl⟩ | old₂
      · exact (only index₁ last₁).trans (only index₂ last₂).symm
      · rw [named'] at named₁
        exact absurd (named₁ ▸ named₂) (other _ _ old₂)
    · rcases definition_snoc.mp defined₂ with ⟨last₂, _, rfl⟩ | old₂
      · rw [named'] at named₂
        exact absurd (named₂ ▸ named₁) (other _ _ old₁)
      · exact named.distinct index₁ index₂ record₁ record₂ name' old₁ old₂ named₁ named₂

end Stg.Btf
