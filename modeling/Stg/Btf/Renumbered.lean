import Stg.Btf.Positions
import Stg.Resembles
import Mathlib.Logic.Equiv.Defs

set_option autoImplicit false

/- The same records at other positions, each reference with its record: the graphs that
are made of them compare the same. -/
namespace Stg.Btf

def RawMember.renumber (π : UInt32 → UInt32) (self : RawMember) : RawMember := { self with type := π self.type }

def RawParameter.renumber (π : UInt32 → UInt32) (self : RawParameter) : RawParameter :=
  { self with type := π self.type }

def Record.renumber (π : UInt32 → UInt32) : Record → Record
  | .ptr type => .ptr (π type)
  | .typedef name type => .typedef name (π type)
  | .qualified qualifier type => .qualified qualifier (π type)
  | .array numberOfElements type => .array numberOfElements (π type)
  | .structUnion kind name bytesize members =>
    .structUnion kind name bytesize (members.map (·.renumber π))
  | .symbol symbolType name type => .symbol symbolType name (π type)
  | .funcProto returnType parameters => .funcProto (π returnType) (parameters.map (·.renumber π))
  | record => record

/-- The record of each index is that of the other sequence at its new index. Records that
make no node do not count. -/
structure Renumbered (π : Equiv.Perm UInt32) (records records' : List Record) : Prop where
  zero : π 0 = 0
  each : ∀ index, definition records' (π index) = (definition records index).map (Record.renumber π)

section

variable {π : Equiv.Perm UInt32} {records records' : List Record}

theorem RawMember.renumber_symm (raw : RawMember) : (raw.renumber π).renumber π.symm = raw := by
  simp [RawMember.renumber]

theorem Record.renumber_symm (record : Record) : (record.renumber π).renumber π.symm = record := by
  cases record <;> simp [Record.renumber, RawMember.renumber, RawParameter.renumber,
    Function.comp_def]

theorem Record.renumber_refl (record : Record) : record.renumber (Equiv.refl UInt32) = record := by
  cases record <;> simp [Record.renumber, RawMember.renumber, RawParameter.renumber]

theorem Record.symbolName_renumber (record : Record) :
    (record.renumber π).symbolName = record.symbolName := by
  cases record <;> rfl

theorem Renumbered.refl (records : List Record) :
    Renumbered (Equiv.refl UInt32) records records where
  zero := rfl
  each index := by
    have same : Record.renumber (Equiv.refl UInt32) = id := funext Record.renumber_refl
    rw [same, Option.map_id, id_eq, Equiv.refl_apply]

theorem Renumbered.symm (renumbered : Renumbered π records records') :
    Renumbered π.symm records' records where
  zero := by rw [Equiv.symm_apply_eq, renumbered.zero]
  each index := by
    have same := renumbered.each (π.symm index)
    rw [Equiv.apply_symm_apply] at same
    rw [same, Option.map_map]
    have undone : Record.renumber π.symm ∘ Record.renumber π = id := funext Record.renumber_symm
    rw [undone, Option.map_id, id_eq]

theorem Renumbered.zero_iff (renumbered : Renumbered π records records') (index : UInt32) :
    π index = 0 ↔ index = 0 := by
  constructor
  · intro zero
    exact π.injective (zero.trans renumbered.zero.symm)
  · rintro rfl
    exact renumbered.zero

end

/-- The ids that are made for the same thing. -/
inductive Corresponds (π : Equiv.Perm UInt32) (s s' : Structs) (root root' : Id) : Id → Id → Prop where
  | root : Corresponds π s s' root root' root root'
  | void {id id' : Id} (shared : s.void = some id) (shared' : s'.void = some id') :
    Corresponds π s s' root root' id id'
  | variadic {id id' : Id} (shared : s.variadic = some id) (shared' : s'.variadic = some id') :
    Corresponds π s s' root root' id id'
  | slot {index : UInt32} {id id' : Id} (slot : s.btfTypeIds.lookup index = some id)
      (slot' : s'.btfTypeIds.lookup (π index) = some id') : Corresponds π s s' root root' id id'
  | member {raw : RawMember} {id id' : Id} (holds : s.HoldsMember ⟨[]⟩ raw id)
      (holds' : s'.HoldsMember ⟨[]⟩ (raw.renumber π) id') : Corresponds π s s' root root' id id'

section

variable {π : Equiv.Perm UInt32} {records records' : List Record} {s s' linked linked' : Structs}
  {root root' id id' : Id} {data data' : List UInt8}

theorem Corresponds.symm (corresponds : Corresponds π s s' root root' id id') :
    Corresponds π.symm s' s root' root id' id := by
  cases corresponds with
  | root => exact .root
  | void shared shared' => exact .void shared' shared
  | variadic shared shared' => exact .variadic shared' shared
  | slot slot slot' => exact .slot slot' (by rwa [Equiv.symm_apply_apply])
  | @member raw _ _ holds holds' => exact .member holds' (by rwa [raw.renumber_symm])

variable (renumbered : Renumbered π records records')

include renumbered

theorem Renumbered.denotes {type : UInt32} (denotes : s.Denotes type id)
    (denotes' : s'.Denotes (π type) id') :
    Corresponds π s s' root root' id id' := by
  unfold Structs.Denotes at denotes denotes'
  split at denotes
  · rename_i zero
    rw [if_pos ((renumbered.zero_iff type).mpr zero)] at denotes'
    exact .void denotes denotes'
  · rename_i positive
    rw [if_neg (positive ∘ (renumbered.zero_iff type).mp)] at denotes'
    exact .slot denotes denotes'

theorem Renumbered.denotesParameter {type : UInt32} (denotes : s.DenotesParameter type id)
    (denotes' : s'.DenotesParameter (π type) id') : Corresponds π s s' root root' id id' := by
  unfold Structs.DenotesParameter at denotes denotes'
  split at denotes
  · rename_i zero
    rw [if_pos ((renumbered.zero_iff type).mpr zero)] at denotes'
    exact .variadic denotes denotes'
  · rename_i positive
    rw [if_neg (positive ∘ (renumbered.zero_iff type).mp)] at denotes'
    exact .slot denotes denotes'

/-- Nodes that the same record describes are related. -/
theorem Renumbered.related {record : Record} {node node' : Node}
    (describes : s.Describes ⟨[]⟩ record node)
    (describes' : s'.Describes ⟨[]⟩ (record.renumber π) node') :
    node.Related (Corresponds π s s' root root') (Corresponds π s s' root root') node' := by
  cases record with
  | int =>
    cases describes
    cases describes'
    exact .integer
  | enum =>
    cases describes
    cases describes'
    exact .enumeration
  | forward =>
    cases describes
    cases describes'
    exact .structUnion .none
  | datasec => cases describes
  | ptr =>
    obtain ⟨_, denotes, rfl⟩ := describes
    obtain ⟨_, denotes', rfl⟩ := describes'
    exact .pointerReference (renumbered.denotes denotes denotes')
  | typedef =>
    obtain ⟨_, denotes, rfl⟩ := describes
    obtain ⟨_, denotes', rfl⟩ := describes'
    exact .typedef (renumbered.denotes denotes denotes')
  | qualified =>
    obtain ⟨_, denotes, rfl⟩ := describes
    obtain ⟨_, denotes', rfl⟩ := describes'
    exact .qualified (renumbered.denotes denotes denotes')
  | array =>
    obtain ⟨_, denotes, rfl⟩ := describes
    obtain ⟨_, denotes', rfl⟩ := describes'
    exact .array (renumbered.denotes denotes denotes')
  | symbol =>
    obtain ⟨_, denotes, rfl⟩ := describes
    obtain ⟨_, denotes', rfl⟩ := describes'
    exact .elfSymbol (.some (renumbered.denotes denotes denotes'))
  | structUnion kind name bytesize members =>
    obtain ⟨ids, held, rfl⟩ := describes
    obtain ⟨ids', held', rfl⟩ := describes'
    have members : List.Forall₂ (Corresponds π s s' root root') ids ids' :=
      forall₂_joined held (List.forall₂_map_left_iff.mp held') fun _ _ _ => .member
    exact .structUnion (.some ⟨rfl, .nil, .nil, members⟩)
  | funcProto returnType parameters =>
    obtain ⟨_, kept, denotes, held, rfl⟩ := describes
    obtain ⟨_, kept', denotes', held', rfl⟩ := describes'
    refine .function (renumbered.denotes denotes denotes') ?_
    refine forall₂_joined held (List.forall₂_map_left_iff.mp held') ?_
    rintro raw parameter parameter' ⟨named, denotes⟩ ⟨named', denotes'⟩
    exact ⟨named'.trans named.symm, renumbered.denotesParameter denotes denotes'⟩

/-- An entry of one map is an entry of the other, for the same record. -/
theorem Renumbered.entry (finished : Finished data ⟨[]⟩ records linked root s)
    (finished' : Finished data' ⟨[]⟩ records' linked' root' s') {key : SymbolKey}
    (entry : (key, id) ∈ linked.btfSymbols.symbols) :
    ∃ id', (key, id') ∈ linked'.btfSymbols.symbols ∧ Corresponds π s s' root root' id id' := by
  obtain ⟨index, record, name, defined, named, rfl, slot⟩ :=
    (finished.named.entries key id).mp entry
  have moved := renumbered.each index
  rw [defined, Option.map_some] at moved
  obtain ⟨id', _, slot', _⟩ := finished'.inv.linked (π index) _ moved
  refine ⟨id', (finished'.named.entries _ id').mpr
    ⟨π index, _, name, moved, by rw [Record.symbolName_renumber, named], rfl, slot'⟩, ?_⟩
  rw [← finished.lookup_eq.1] at slot
  rw [← finished'.lookup_eq.1] at slot'
  exact .slot slot slot'

/-- The maps have the same names, each for the same record. -/
theorem Renumbered.symbols (finished : Finished data ⟨[]⟩ records linked root s)
    (finished' : Finished data' ⟨[]⟩ records' linked' root' s') :
    List.Forall₂ (fun symbol symbol' => symbol'.1 = symbol.1 ∧
      Corresponds π s s' root root' symbol.2 symbol'.2)
      linked.btfSymbols.symbols linked'.btfSymbols.symbols := by
  apply Ordered.related_of_keys linked.btfSymbols.ascending linked'.btfSymbols.ascending
  · intro key id entry
    exact renumbered.entry finished finished' entry
  · intro key id' entry
    obtain ⟨id, entry, _⟩ := renumbered.symm.entry finished' finished entry
    exact ⟨id, entry⟩

theorem Renumbered.node (finished : Finished data ⟨[]⟩ records linked root s)
    (finished' : Finished data' ⟨[]⟩ records' linked' root' s')
    (corresponds : Corresponds π s s' root root' id id') {node : Node}
    (got : s.graph.get id = .ok node) :
    ∃ node', s'.graph.get id' = .ok node' ∧
      node.Related (Corresponds π s s' root root') (Corresponds π s s' root root') node' := by
  have positions := finished.linkedByPosition
  have positions' := finished'.linkedByPosition
  cases corresponds with
  | root =>
    cases finished.got_root.symm.trans got
    exact ⟨_, finished'.got_root, .symbols (renumbered.symbols finished finished')⟩
  | void shared shared' =>
    cases ((positions.void id (Nat.zero_le _)).mpr shared).symm.trans got
    exact ⟨.void, (positions'.void id' (Nat.zero_le _)).mpr shared', .void⟩
  | variadic shared shared' =>
    cases ((positions.variadic id (Nat.zero_le _)).mpr shared).symm.trans got
    exact ⟨.variadic, (positions'.variadic id' (Nat.zero_le _)).mpr shared', .variadic⟩
  | @slot index _ _ slot slot' =>
    have moved := renumbered.each index
    cases defined : definition records index with
    | none => exact absurd ⟨node, got⟩ (positions.undefined index id slot defined)
    | some record =>
      rw [defined, Option.map_some] at moved
      obtain ⟨_, _, same, _, got₁, describes⟩ := finished.linked_at defined
      obtain ⟨_, node', same', _, got', describes'⟩ := finished'.linked_at moved
      cases slot.symm.trans same
      cases slot'.symm.trans same'
      cases got.symm.trans got₁
      exact ⟨node', got', renumbered.related describes describes'⟩
  | @member raw _ _ holds holds' =>
    obtain ⟨_, _, got₁, typeId, denotes, rfl⟩ := holds
    obtain ⟨_, _, got', typeId', denotes', rfl⟩ := holds'
    cases got.symm.trans got₁
    have type : Corresponds π s s' root root' typeId typeId' := renumbered.denotes denotes denotes'
    exact ⟨_, got', .member (fun _ => type) type⟩

theorem Renumbered.resembles (finished : Finished data ⟨[]⟩ records linked root s)
    (finished' : Finished data' ⟨[]⟩ records' linked' root' s') :
    s.graph.Resembles s'.graph (Corresponds π s s' root root') where
  nodes _ _ corresponds _ got := renumbered.node finished finished' corresponds got
  back := by
    rintro id id' corresponds ⟨node', got'⟩
    obtain ⟨node, got, _⟩ := renumbered.symm.node finished' finished corresponds.symm got'
    exact ⟨node, got⟩

end

end Stg.Btf
