import Stg.Btf.Reads

set_option autoImplicit false

/- What the reader has linked after some of the records, and how the steps of a
record keep it. -/
namespace Stg.Btf

namespace Structs

/-- The node that a type index stands for where it is not the type of a parameter. -/
def Denotes (s : Structs) (index : UInt32) (id : Id) : Prop :=
  if index = 0 then s.void = some id else s.btfTypeIds.lookup index = some id

def DenotesParameter (s : Structs) (index : UInt32) (id : Id) : Prop :=
  if index = 0 then s.variadic = some id else s.btfTypeIds.lookup index = some id

def DescribesMember (s : Structs) (member : RawMember) (node : Node) : Prop :=
  ∃ typeId, s.Denotes member.type typeId ∧
    node = .member ⟨member.name, typeId, member.offset, member.bitsize⟩

/-- The slot, which was not in the graph before, holds the member. -/
def HoldsMember (s : Structs) (base : Graph) (member : RawMember) (id : Id) : Prop :=
  base.nodes.length ≤ id.ix ∧ ∃ node, s.graph.get id = .ok node ∧ s.DescribesMember member node

def KeepsParameter (s : Structs) (raw : RawParameter) (parameter : Parameter) : Prop :=
  parameter.name = raw.name ∧ s.DenotesParameter raw.type parameter.typeId

/-- The node is what the record says, each type index as the node it stands for. -/
def Describes (s : Structs) (base : Graph) : Record → Node → Prop
  | .int name encoding bitsize bytesize, node =>
    node = .integer ⟨name, encoding, bitsize, bytesize⟩
  | .ptr type, node => ∃ id, s.Denotes type id ∧ node = .pointerReference ⟨.pointer, id⟩
  | .typedef name type, node => ∃ id, s.Denotes type id ∧ node = .typedef ⟨name, id⟩
  | .qualified qualifier type, node =>
    ∃ id, s.Denotes type id ∧ node = .qualified ⟨qualifier, id⟩
  | .array numberOfElements type, node =>
    ∃ id, s.Denotes type id ∧ node = .array ⟨numberOfElements, id⟩
  | .structUnion kind name bytesize members, node =>
    ∃ ids, List.Forall₂ (s.HoldsMember base) members ids ∧
      node = .structUnion ⟨kind, name, some ⟨bytesize, [], [], ids⟩⟩
  | .enum name definition, node => node = .enumeration ⟨name, definition⟩
  | .forward kind name, node => node = .structUnion ⟨kind, name, none⟩
  | .symbol symbolType name type, node =>
    ∃ id, s.Denotes type id ∧ node = .elfSymbol
      ⟨name, none, true, symbolType, .global, .default, none, some id, none⟩
  | .funcProto returnType parameters, node =>
    ∃ id kept, s.Denotes returnType id ∧
      List.Forall₂ s.KeepsParameter parameters kept ∧ node = .function ⟨id, kept⟩
  | .datasec, _ => False

/-- Where a node comes from that the reader has made. -/
inductive Made (s : Structs) (records : List Record) (pending : List RawMember) (id : Id) :
    Node → Prop where
  | void (shared : s.void = some id) : s.Made records pending id .void
  | variadic (shared : s.variadic = some id) : s.Made records pending id .variadic
  | record {index : UInt32} {record : Record} {node : Node}
      (defined : definition records index = some record)
      (slot : s.btfTypeIds.lookup index = some id) : s.Made records pending id node
  | member {raw : RawMember} {node : Node}
      (listed : raw ∈ pending ∨
        ∃ index record, definition records index = some record ∧ raw ∈ record.members)
      (described : s.DescribesMember raw node) : s.Made records pending id node

/-- Later steps keep what has been linked. -/
structure Links (s s' : Structs) : Prop where
  graph : s.graph.Extends s'.graph
  void : ∀ id, s.void = some id → s'.void = some id
  variadic : ∀ id, s.variadic = some id → s'.variadic = some id
  slots : ∀ index id, s.btfTypeIds.lookup index = some id → s'.btfTypeIds.lookup index = some id

/-- The map of symbols changes only when a record is complete. -/
structure Grows (s s' : Structs) : Prop extends s.Links s' where
  symbols : s'.btfSymbols = s.btfSymbols

variable {s s' s'' : Structs} {base : Graph} {records : List Record}
  {pending pending' : List RawMember}

theorem Links.same (graph : s'.graph = s.graph) (void : s'.void = s.void)
    (variadic : s'.variadic = s.variadic) (slots : s'.btfTypeIds = s.btfTypeIds) : s.Links s' where
  graph := graph ▸ .refl _
  void _ held := void.trans held
  variadic _ held := variadic.trans held
  slots _ _ held := slots ▸ held

theorem Grows.refl (s : Structs) : s.Grows s := ⟨.same rfl rfl rfl rfl, rfl⟩

theorem Grows.trans (first : s.Grows s') (second : s'.Grows s'') : s.Grows s'' where
  graph := first.graph.trans second.graph
  void id held := second.void id (first.void id held)
  variadic id held := second.variadic id (first.variadic id held)
  slots index id held := second.slots index id (first.slots index id held)
  symbols := second.symbols.trans first.symbols

theorem Links.denotes (links : s.Links s') {index : UInt32} {id : Id}
    (denotes : s.Denotes index id) : s'.Denotes index id := by
  unfold Denotes at denotes ⊢
  split at denotes
  · rename_i zero
    rw [if_pos zero]
    exact links.void id denotes
  · rename_i positive
    rw [if_neg positive]
    exact links.slots index id denotes

theorem Links.denotesParameter (links : s.Links s') {index : UInt32} {id : Id}
    (denotes : s.DenotesParameter index id) : s'.DenotesParameter index id := by
  unfold DenotesParameter at denotes ⊢
  split at denotes
  · rename_i zero
    rw [if_pos zero]
    exact links.variadic id denotes
  · rename_i positive
    rw [if_neg positive]
    exact links.slots index id denotes

theorem Links.describesMember (links : s.Links s') {member : RawMember} {node : Node}
    (describes : s.DescribesMember member node) : s'.DescribesMember member node := by
  obtain ⟨typeId, denotes, rfl⟩ := describes
  exact ⟨typeId, links.denotes denotes, rfl⟩

theorem Links.holdsMember (links : s.Links s') (member : RawMember) (id : Id)
    (holds : s.HoldsMember base member id) : s'.HoldsMember base member id := by
  obtain ⟨new, node, got, describes⟩ := holds
  exact ⟨new, node, links.graph.got got, links.describesMember describes⟩

theorem Links.keepsParameter (links : s.Links s') (raw : RawParameter) (parameter : Parameter)
    (keeps : s.KeepsParameter raw parameter) : s'.KeepsParameter raw parameter :=
  ⟨keeps.1, links.denotesParameter keeps.2⟩

theorem Links.describes (links : s.Links s') {record : Record} {node : Node}
    (describes : s.Describes base record node) : s'.Describes base record node := by
  cases record with
  | int | enum | forward | datasec => exact describes
  | ptr | typedef | qualified | array | symbol =>
    obtain ⟨id, denotes, rfl⟩ := describes
    exact ⟨id, links.denotes denotes, rfl⟩
  | structUnion kind name bytesize members =>
    obtain ⟨ids, held, rfl⟩ := describes
    exact ⟨ids, held.imp links.holdsMember, rfl⟩
  | funcProto returnType parameters =>
    obtain ⟨id, kept, denotes, held, rfl⟩ := describes
    exact ⟨id, kept, links.denotes denotes, held.imp links.keepsParameter, rfl⟩

theorem Made.grow (links : s.Links s') (more : ∀ raw ∈ pending, raw ∈ pending') {id : Id}
    {node : Node} (made : s.Made records pending id node) : s'.Made records pending' id node := by
  cases made with
  | void shared => exact .void (links.void id shared)
  | variadic shared => exact .variadic (links.variadic id shared)
  | record defined slot => exact .record defined (links.slots _ id slot)
  | member listed described =>
    exact .member (listed.imp_left (more _)) (links.describesMember described)

end Structs

/-- What holds of the state while a record is read: `records` are complete, and
`pending` are the members that the current one has made so far. -/
structure Inv (input : Input) (base : Graph) (records : List Record) (pending : List RawMember)
    (s : Structs) : Prop where
  kept : base.Extends s.graph
  void : ∀ id, s.void = some id → base.nodes.length ≤ id.ix ∧ s.graph.get id = .ok .void
  variadic : ∀ id, s.variadic = some id →
    base.nodes.length ≤ id.ix ∧ s.graph.get id = .ok .variadic
  slot : ∀ index id, s.btfTypeIds.lookup index = some id →
    index ≠ 0 ∧ base.nodes.length ≤ id.ix ∧ id.ix < s.graph.nodes.length
  injective : ∀ index index' id, s.btfTypeIds.lookup index = some id →
    s.btfTypeIds.lookup index' = some id → index = index'
  unset : ∀ index id, s.btfTypeIds.lookup index = some id → definition records index = none →
    s.graph.nodes[id.ix]? = some none
  linked : ∀ index record, definition records index = some record →
    ∃ id node, s.btfTypeIds.lookup index = some id ∧ s.graph.get id = .ok node ∧
      s.Describes base record node
  made : ∀ id node, base.nodes.length ≤ id.ix → s.graph.get id = .ok node →
    s.Made records pending id node
  reads : ∀ access ∈ s.reads, input.Allows access

/-- The map of symbols has one entry for each function and variable. -/
structure Named (records : List Record) (s : Structs) : Prop where
  entries : ∀ key id, (key, id) ∈ s.btfSymbols.symbols ↔
    ∃ index record name, definition records index = some record ∧
      record.symbolName = some name ∧ key = ⟨"", name⟩ ∧ s.btfTypeIds.lookup index = some id
  distinct : ∀ index index' record record' name, definition records index = some record →
    definition records index' = some record' → record.symbolName = some name →
    record'.symbolName = some name → index = index'

/-- How the reader fails. -/
def Raised (input : Input) (reason : Error) (s : Structs) : Prop :=
  Thrown reason ∧ ∀ access ∈ s.reads, input.Allows access

/-- The call returns with the invariant, for what has then been read, and with `fact`. -/
def Keeps {α : Type} (input : Input) (base : Graph) (records : List Record)
    (pending : List RawMember) (s : Structs) (call : Reading α) (fact : α → Structs → Prop) : Prop :=
  call.Ends s (fun value s' => Inv input base records pending s' ∧ s.Grows s' ∧ fact value s')
    (Raised input)

section

variable {input : Input} {base : Graph} {records records' : List Record}
  {pending pending' : List RawMember} {s s' : Structs} {α β : Type}

theorem Keeps.bind {call : Reading α} {rest : α → Reading β} {fact : α → Structs → Prop}
    {fact' : β → Structs → Prop} (first : Keeps input base records pending s call fact)
    (second : ∀ value s', Inv input base records pending s' → s.Grows s' → fact value s' →
      Keeps input base records' pending' s' (rest value) fact') :
    Keeps input base records' pending' s (call >>= rest) fact' := by
  apply EStateM.Ends.bind first
  rintro value s' ⟨inv, grows, holds⟩
  apply (second value s' inv grows holds).imp
  · rintro value' s'' ⟨inv', grows', holds'⟩
    exact ⟨inv', grows.trans grows', holds'⟩
  · exact fun _ _ raised => raised

theorem Keeps.pure {value : α} {fact : α → Structs → Prop}
    (inv : Inv input base records pending s) (holds : fact value s) :
    Keeps input base records pending s (Pure.pure value) fact :=
  EStateM.Ends.pure ⟨inv, .refl s, holds⟩

/-- The invariant is about the graph and what is linked in it. -/
theorem Inv.same (inv : Inv input base records pending s) (graph : s'.graph = s.graph)
    (void : s'.void = s.void) (variadic : s'.variadic = s.variadic)
    (slots : s'.btfTypeIds = s.btfTypeIds) (reads : ∀ access ∈ s'.reads, input.Allows access) :
    Inv input base records pending s' where
  kept := graph ▸ inv.kept
  void := by rw [graph, void]; exact inv.void
  variadic := by rw [graph, variadic]; exact inv.variadic
  slot := by rw [graph, slots]; exact inv.slot
  injective := by rw [slots]; exact inv.injective
  unset := by rw [graph, slots]; exact inv.unset
  linked := by
    intro index record defined
    have links := Structs.Links.same graph void variadic slots
    obtain ⟨id, node, slot, got, describes⟩ := inv.linked index record defined
    exact ⟨id, node, links.slots index id slot, links.graph.got got, links.describes describes⟩
  made := by
    intro id node new got
    have links := Structs.Links.same graph void variadic slots
    rw [graph] at got
    exact (inv.made id node new got).grow links fun _ listed => listed
  reads := reads

/-- A call that only reads keeps the invariant. -/
theorem Inv.peek (inv : Inv input base records pending s) {call : Reading α} {fact : α → Prop}
    (peeks : Untouched input.Allows s s → Peeks input.Allows s s call fact) :
    Keeps input base records pending s call (fun value _ => fact value) := by
  apply (peeks ⟨s.reads, rfl, inv.reads⟩).imp
  · rintro value s' ⟨⟨reads, rfl, allowed⟩, holds⟩
    exact ⟨inv.same rfl rfl rfl rfl allowed, ⟨.same rfl rfl rfl rfl, rfl⟩, holds⟩
  · rintro reason s' ⟨thrown, ⟨reads, rfl, allowed⟩⟩
    exact ⟨thrown, allowed⟩

end

end Stg.Btf
