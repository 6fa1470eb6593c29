import Stg.Btf.Positions
import Stg.Lib.Entries
import Mathlib.Logic.Relation

set_option autoImplicit false

/- When the graph that is read has no dangling reference. -/
namespace Stg.Btf

open Relation (ReflTransGen)

/-- The type indexes that are reached from functions and variables. -/
inductive Reached (records : List Record) : UInt32 → Prop where
  | symbol {index : UInt32} {record : Record} {name : String}
      (defined : definition records index = some record) (named : record.symbolName = some name) :
      Reached records index
  | reference {index reference : UInt32} {record : Record} (reached : Reached records index)
      (defined : definition records index = some record) (kept : reference ∈ record.references) :
      Reached records reference

/-- The index stands for `void` or for the node of a record. -/
def Resolves (records : List Record) (index : UInt32) : Prop :=
  index = 0 ∨ ∃ record, definition records index = some record

variable {data : List UInt8} {base : Graph} {records : List Record} {root : Id}
  {linked s : Structs} {record : Record} {node : Node} {reference : Id}

/-- The node that an index stands for in some position. -/
def Structs.Stands (s : Structs) (index : UInt32) (id : Id) : Prop :=
  s.Denotes index id ∨ s.DenotesParameter index id

theorem Structs.Stands.slot {index : UInt32} {id : Id} (stands : s.Stands index id)
    (positive : index ≠ 0) : s.btfTypeIds.lookup index = some id :=
  stands.elim (Structs.denotes_positive positive).mp (Structs.denotesParameter_positive positive).mp

/-- What a node refers to is what its record says. -/
theorem Structs.Describes.references (describes : s.Describes base record node)
    (among : reference ∈ node.references) :
    (node.kind ≠ .structUnion ∧ ∃ index ∈ record.references, s.Stands index reference) ∨
      ∃ raw ∈ record.members, s.HoldsMember base raw reference := by
  cases record with
  | int | enum | forward =>
    cases describes
    cases among
  | datasec => cases describes
  | ptr | typedef | qualified | array | symbol =>
    obtain ⟨id, denotes, rfl⟩ := describes
    cases List.mem_singleton.mp among
    exact .inl ⟨nofun, _, List.mem_singleton_self _, .inl denotes⟩
  | structUnion kind name bytesize members =>
    obtain ⟨ids, held, rfl⟩ := describes
    have among : reference ∈ ids := among
    exact .inr (forall₂_mem_right held among)
  | funcProto returnType parameters =>
    obtain ⟨id, kept, denotes, held, rfl⟩ := describes
    rcases List.mem_cons.mp among with rfl | among
    · exact .inl ⟨nofun, _, List.mem_cons_self, .inl denotes⟩
    · obtain ⟨parameter, present, rfl⟩ := List.mem_map.mp among
      obtain ⟨raw, listed, keeps⟩ := forall₂_mem_right held present
      exact .inl ⟨nofun, _, List.mem_cons_of_mem _ (List.mem_map_of_mem listed), .inr keeps.2⟩

/-- What a record says is what its node refers to. -/
theorem Structs.Describes.kept (describes : s.Describes base record node) {index : UInt32}
    (among : index ∈ record.references) :
    (∃ reference ∈ node.references, s.Stands index reference) ∨
      ∃ member ∈ node.references, ∃ raw ∈ record.members,
        raw.type = index ∧ s.HoldsMember base raw member := by
  cases record with
  | int | enum | forward | datasec => cases among
  | ptr | typedef | qualified | array | symbol =>
    obtain ⟨id, denotes, rfl⟩ := describes
    cases List.mem_singleton.mp among
    exact .inl ⟨id, List.mem_singleton_self _, .inl denotes⟩
  | structUnion kind name bytesize members =>
    obtain ⟨ids, held, rfl⟩ := describes
    obtain ⟨raw, listed, rfl⟩ := List.mem_map.mp among
    obtain ⟨member, present, holds⟩ := forall₂_mem_left held listed
    exact .inr ⟨member, present, raw, listed, rfl, holds⟩
  | funcProto returnType parameters =>
    obtain ⟨id, kept, denotes, held, rfl⟩ := describes
    rcases List.mem_cons.mp among with rfl | among
    · exact .inl ⟨id, List.mem_cons_self, .inl denotes⟩
    · obtain ⟨raw, listed, rfl⟩ := List.mem_map.mp among
      obtain ⟨parameter, present, keeps⟩ := forall₂_mem_left held listed
      exact .inl ⟨_, List.mem_cons_of_mem _ (List.mem_map_of_mem present), .inr keeps.2⟩

theorem Record.members_references {raw : RawMember} (listed : raw ∈ record.members) :
    raw.type ∈ record.references := by
  cases record with
  | structUnion => exact List.mem_map_of_mem listed
  | _ => cases listed

section

variable (finished : Finished data base records linked root s)

include finished

theorem Finished.void_is {id : Id} (shared : s.void = some id) : s.graph.get id = .ok .void := by
  rw [finished.lookup_eq.2.1] at shared
  exact finished.links.graph.got (finished.inv.void id shared).2

theorem Finished.variadic_is {id : Id} (shared : s.variadic = some id) :
    s.graph.get id = .ok .variadic := by
  rw [finished.lookup_eq.2.2] at shared
  exact finished.links.graph.got (finished.inv.variadic id shared).2

/-- An index that resolves stands for a node that is set. -/
theorem Finished.stands_is {index : UInt32} {id : Id} (stands : s.Stands index id)
    (resolves : Resolves records index) : s.graph.Is id := by
  by_cases zero : index = 0
  · subst zero
    rcases stands with shared | shared
    · exact ⟨_, finished.void_is shared⟩
    · exact ⟨_, finished.variadic_is shared⟩
  · rcases resolves with none | ⟨record, defined⟩
    · exact absurd none zero
    · obtain ⟨id', node, slot, _, got, _⟩ := finished.linked_at defined
      cases slot.symm.trans (stands.slot zero)
      exact ⟨node, got⟩

/-- A slot that is set is the slot of a record. -/
theorem Finished.resolves {index : UInt32} {id : Id} (slot : s.btfTypeIds.lookup index = some id)
    (set : s.graph.Is id) : Resolves records index := by
  cases defined : definition records index with
  | none => exact absurd set (finished.linkedByPosition.undefined index id slot defined)
  | some record => exact .inr ⟨record, defined⟩

/-- What is reached from the root when the reached indexes resolve. -/
theorem Finished.reached_set (resolved : ∀ index, Reached records index → Resolves records index)
    {id : Id} (reach : ReflTransGen s.graph.Refers root id) :
    id = root ∨ (∃ index, Reached records index ∧ s.Stands index id) ∨
      ∃ raw, Reached records raw.type ∧ s.HoldsMember base raw id := by
  induction reach with
  | refl => exact .inl rfl
  | tail _ refers ih =>
    rename_i id reference
    obtain ⟨node, got, among⟩ := refers
    rcases ih with rfl | ⟨index, reached, stands⟩ | ⟨raw, reached, _, member, held, typeId,
      denotes, rfl⟩
    · cases finished.got_root.symm.trans got
      obtain ⟨⟨key, symbol⟩, entry, rfl⟩ := List.mem_map.mp among
      obtain ⟨index, record, name, defined, named, _, slot⟩ :=
        (finished.named.entries key _).mp entry
      rw [← finished.lookup_eq.1] at slot
      right
      left
      refine ⟨index, .symbol defined named, .inl ?_⟩
      have positive := (finished.inv.slot index _ (finished.lookup_eq.1 ▸ slot)).1
      exact (Structs.denotes_positive positive).mpr slot
    · by_cases zero : index = 0
      · subst zero
        rcases stands with shared | shared
        · cases (finished.void_is shared).symm.trans got
          cases among
        · cases (finished.variadic_is shared).symm.trans got
          cases among
      · rcases resolved index reached with none | ⟨record, defined⟩
        · exact absurd none zero
        · obtain ⟨id', node', slot, _, got', describes⟩ := finished.linked_at defined
          cases slot.symm.trans (stands.slot zero)
          cases got'.symm.trans got
          rcases describes.references among with ⟨_, next, kept, stands'⟩ | ⟨raw, listed, holds⟩
          · exact .inr (.inl ⟨next, .reference reached defined kept, stands'⟩)
          · have kept := Record.members_references listed
            exact .inr (.inr ⟨raw, .reference reached defined kept, holds⟩)
    · cases held.symm.trans got
      cases List.mem_singleton.mp among
      exact .inr (.inl ⟨raw.type, reached, .inl denotes⟩)

/-- The slot of an index that is reached is reached from the root. -/
theorem Finished.reached_slot {index : UInt32} (reached : Reached records index)
    (positive : index ≠ 0) :
    ∃ id, s.btfTypeIds.lookup index = some id ∧ ReflTransGen s.graph.Refers root id := by
  induction reached with
  | symbol defined named =>
    rename_i index record name
    obtain ⟨id, node, slot, _⟩ := finished.linked_at defined
    have entry : (⟨"", name⟩, id) ∈ linked.btfSymbols.symbols := by
      rw [finished.named.entries, ← finished.lookup_eq.1]
      exact ⟨index, record, name, defined, named, rfl, slot⟩
    refine ⟨id, slot, .single ⟨_, finished.got_root, ?_⟩⟩
    exact List.mem_map_of_mem (f := Prod.snd) entry
  | reference reached defined kept ih =>
    rename_i index reference record
    have from_ : index ≠ 0 := by
      intro zero
      rw [zero, definition, if_pos rfl] at defined
      cases defined
    obtain ⟨id, slot, path⟩ := ih from_
    obtain ⟨id', node, slot', _, got, describes⟩ := finished.linked_at defined
    cases slot.symm.trans slot'
    rcases describes.kept kept with ⟨next, among, stands⟩ | ⟨member, among, raw, listed, rfl, _,
      node', held, typeId, denotes, rfl⟩
    · exact ⟨next, stands.slot positive, path.tail ⟨node, got, among⟩⟩
    · have step := path.tail ⟨node, got, among⟩
      refine ⟨typeId, (Structs.denotes_positive positive).mp denotes, step.tail ?_⟩
      exact ⟨_, held, List.mem_singleton_self _⟩

theorem Finished.reachable_set_iff :
    (∀ id, ReflTransGen s.graph.Refers root id → s.graph.Is id) ↔
      ∀ index, Reached records index → Resolves records index := by
  constructor
  · intro closed index reached
    by_cases zero : index = 0
    · exact .inl zero
    · obtain ⟨id, slot, path⟩ := finished.reached_slot reached zero
      exact finished.resolves slot (closed id path)
  · intro resolved id reach
    rcases finished.reached_set resolved reach with rfl | ⟨index, reached, stands⟩ | ⟨raw, _, _,
      member, held, _⟩
    · exact ⟨_, finished.got_root⟩
    · exact finished.stands_is stands (resolved index reached)
    · exact ⟨member, held⟩

/-- No node that is made of the records has a dangling reference if and only if each
reference of each record resolves. -/
theorem Finished.references_set_iff :
    (∀ id node, base.nodes.length ≤ id.ix → s.graph.get id = .ok node →
        ∀ reference ∈ node.references, s.graph.Is reference) ↔
      ∀ index record, definition records index = some record →
        ∀ reference ∈ record.references, Resolves records reference := by
  constructor
  · intro closed index record defined reference kept
    by_cases zero : reference = 0
    · exact .inl zero
    obtain ⟨id, node, slot, new, got, describes⟩ := finished.linked_at defined
    rcases describes.kept kept with ⟨next, among, stands⟩ | ⟨member, among, raw, listed, rfl, new',
      node', held, typeId, denotes, rfl⟩
    · exact finished.resolves (stands.slot zero) (closed id node new got next among)
    · have set := closed member _ new' held typeId (List.mem_singleton_self _)
      exact finished.resolves ((Structs.denotes_positive zero).mp denotes) set
  · intro resolved id node new got reference among
    rcases finished.linkedByPosition.made id node new got with rfl | made
    · cases finished.got_root.symm.trans got
      obtain ⟨⟨key, symbol⟩, entry, rfl⟩ := List.mem_map.mp among
      obtain ⟨index, record, name, defined, _, _, slot⟩ := (finished.named.entries key _).mp entry
      rw [← finished.lookup_eq.1] at slot
      obtain ⟨id', node', slot', _, got', _⟩ := finished.linked_at defined
      cases slot.symm.trans slot'
      exact ⟨node', got'⟩
    · cases made with
      | void => cases among
      | variadic => cases among
      | record defined slot =>
        obtain ⟨id', node', slot', _, got', describes⟩ := finished.linked_at defined
        cases slot.symm.trans slot'
        cases got.symm.trans got'
        rcases describes.references among with ⟨_, index, kept, stands⟩ | ⟨raw, listed, _, member,
          held, _⟩
        · exact finished.stands_is stands (resolved _ _ defined index kept)
        · exact ⟨member, held⟩
      | member listed described =>
        obtain ⟨typeId, denotes, rfl⟩ := described
        cases List.mem_singleton.mp among
        rcases listed with none | ⟨index, record, defined, listed⟩
        · cases none
        · have kept := Record.members_references listed
          exact finished.stands_is (.inl denotes) (resolved index record defined _ kept)

end

/-- An accepted input leaves no dangling reference behind its root if and only if every
type index that is reached from a function or a variable is 0 or the index of a record
that defines a node, and none at all if and only if every reference of a record is. -/
theorem process_closed_iff (data : List UInt8) (base : Graph) (verbose : Bool) (fuel : Nat)
    (root : Id) (s : Structs) (enough : data.length < fuel)
    (accepted : (process data fuel verbose).run { graph := base } = .ok root s) :
    ∃ records, Sectioned data records ∧
      ((∀ id, ReflTransGen s.graph.Refers root id → s.graph.Is id) ↔
        ∀ index, Reached records index → Resolves records index) ∧
      ((∀ id node, base.nodes.length ≤ id.ix → s.graph.get id = .ok node →
          ∀ reference ∈ node.references, s.graph.Is reference) ↔
        ∀ index record, definition records index = some record →
          ∀ reference ∈ record.references, Resolves records reference) := by
  obtain ⟨records, linked, finished⟩ := (process_ends data base verbose enough).returns accepted
  exact ⟨records, finished.sectioned, finished.reachable_set_iff, finished.references_set_iff⟩

theorem process_closed_forwardPointer :
    ∃ root s records, (process forwardPointer 100 true).run { graph := ⟨[]⟩ } = .ok root s ∧
      Sectioned forwardPointer records ∧
      ((∀ id, ReflTransGen s.graph.Refers root id → s.graph.Is id) ↔
        ∀ index, Reached records index → Resolves records index) := by
  have ran : made ((process forwardPointer 100 true).run { graph := ⟨[]⟩ }) =
      some (⟨2⟩, [some (.elfSymbol ⟨"a", none, true, .object, .global, .default, none,
        some ⟨1⟩, none⟩), some (.pointerReference ⟨.pointer, ⟨0⟩⟩),
        some (.symbols ⟨[(⟨"", "a"⟩, ⟨0⟩)], by decide⟩)]) := by
    decide +kernel
  obtain ⟨s, ran, _⟩ := returns_of_made ran
  obtain ⟨records, sectioned, closed, _⟩ :=
    process_closed_iff forwardPointer ⟨[]⟩ true 100 ⟨2⟩ s (by decide +kernel) ran
  exact ⟨⟨2⟩, s, records, ran, sectioned, closed⟩

/-- A variable whose type is the fifth of one record. -/
def danglingVariable : List UInt8 := assemble [1, 0x0e000000, 5, 0] [0, 97, 0]

theorem danglingVariable_accepted :
    ∃ root s, (process danglingVariable 100 false).run { graph := ⟨[]⟩ } = .ok root s ∧
      ∃ id, ReflTransGen s.graph.Refers root id ∧ ¬ s.graph.Is id := by
  have ran : made ((process danglingVariable 100 false).run { graph := ⟨[]⟩ }) =
      some (⟨2⟩, [none, some (.elfSymbol ⟨"a", none, true, .object, .global, .default, none,
        some ⟨0⟩, none⟩), some (.symbols ⟨[(⟨"", "a"⟩, ⟨1⟩)], by decide⟩)]) := by
    decide +kernel
  obtain ⟨s, ran, nodes⟩ := returns_of_made ran
  change s.graph.nodes = _ at nodes
  have symbol : s.graph.Refers ⟨2⟩ ⟨1⟩ := by
    refine ⟨.symbols ⟨[(⟨"", "a"⟩, ⟨1⟩)], by decide⟩, Graph.get_eq_ok.mpr ?_, by decide⟩
    rw [nodes]
    rfl
  have type : s.graph.Refers ⟨1⟩ ⟨0⟩ := by
    refine ⟨.elfSymbol ⟨"a", none, true, .object, .global, .default, none, some ⟨0⟩, none⟩,
      Graph.get_eq_ok.mpr ?_, by decide⟩
    rw [nodes]
    rfl
  refine ⟨⟨2⟩, s, ran, ⟨0⟩, .tail (.single symbol) type, ?_⟩
  rw [Graph.is_iff, nodes]
  rintro ⟨node, held⟩
  cases held

end Stg.Btf
