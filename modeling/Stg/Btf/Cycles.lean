import Stg.Btf.Closed
import Stg.Walks

set_option autoImplicit false

/- When the graph that is read has no cycle that a walk would go round. -/
namespace Stg.Btf

open Relation (TransGen)

/-- The index that a qualifier qualifies. -/
def Record.Qualifies : Record → UInt32 → Prop
  | .qualified _ type, index => type = index
  | _, _ => False

/-- The index that a typedef gives another name to. -/
def Record.Renames : Record → UInt32 → Prop
  | .typedef _ type, index => type = index
  | _, _ => False

/-- The type of an anonymous member of an anonymous aggregate. -/
def Record.Encloses : Record → UInt32 → Prop
  | .structUnion _ name _ members, index =>
    name = "" ∧ ∃ raw ∈ members, raw.name = "" ∧ raw.type = index
  | _, _ => False

/-- No references of one sort go round. -/
abbrev RecordsAcyclic (records : List Record) : Prop :=
  NoneGoesRound (StepOf (definition records) Record.Qualifies)
    (StepOf (definition records) Record.Renames) (StepOf (definition records) Record.Encloses)

variable {data : List UInt8} {base : Graph} {records : List Record} {root : Id}
  {linked s : Structs} {record : Record} {node : Node}

/-- What the record of an index says of a node. -/
abbrev Structs.Says (s : Structs) (base : Graph) (_ : UInt32) (record : Record) (node : Node) : Prop :=
  s.Describes base record node

theorem definition_positive {index : UInt32} (defined : definition records index = some record) :
    index ≠ 0 := by
  rintro rfl
  cases defined

section

variable (finished : Finished data base records linked root s)

include finished

theorem Finished.record_of {index : UInt32} {id : Id} (denotes : s.Denotes index id)
    (got : s.graph.get id = .ok node) (other : node.kind ≠ .void) :
    index ≠ 0 ∧ ∃ record, definition records index = some record ∧
      s.Describes base record node := by
  have positive : index ≠ 0 := by
    rintro rfl
    cases got.symm.trans (finished.void_is denotes)
    exact other rfl
  have slot := (Structs.denotes_positive positive).mp denotes
  rcases finished.resolves slot ⟨node, got⟩ with zero | ⟨record, defined⟩
  · exact absurd zero positive
  · obtain ⟨id', node', slot', _, got', describes⟩ := finished.linked_at defined
    cases slot.symm.trans slot'
    cases got.symm.trans got'
    exact ⟨positive, record, defined, describes⟩

theorem Finished.account : s.graph.Account (fun id => base.nodes.length ≤ id.ix)
    (definition records)
    (s.Says base) s.Denotes where
  entry index id node denotes got walked :=
    (finished.record_of denotes got (by rintro kind; simp [kind, Node.Kind.Walked] at walked)).2
  node index record id defined denotes := by
    have positive := definition_positive defined
    obtain ⟨id', node, slot, _, got, describes⟩ := finished.linked_at defined
    cases slot.symm.trans ((Structs.denotes_positive positive).mp denotes)
    exact ⟨node, got, describes⟩
  key i j id node got walked first second := by
    have other : node.kind ≠ .void := by
      rintro kind
      simp [kind, Node.Kind.Walked] at walked
    have positive := (finished.record_of first got other).1
    have positive' := (finished.record_of second got other).1
    exact finished.linkedByPosition.injective i j id ((Structs.denotes_positive positive).mp first)
      ((Structs.denotes_positive positive').mp second)
  element index record id id' defined first second := by
    have positive := definition_positive defined
    have slot := (Structs.denotes_positive positive).mp first
    exact Option.some.inj (slot.symm.trans ((Structs.denotes_positive positive).mp second))
  keyed id node new got walked := by
    rcases finished.linkedByPosition.made id node new got with rfl | made
    · cases finished.got_root.symm.trans got
      simp [Node.kind, Node.Kind.Walked] at walked
    · cases made with
      | void => simp [Node.kind, Node.Kind.Walked] at walked
      | variadic => simp [Node.kind, Node.Kind.Walked] at walked
      | record defined slot =>
        exact ⟨_, (Structs.denotes_positive (definition_positive defined)).mpr slot⟩
      | member _ described =>
        obtain ⟨_, _, rfl⟩ := described
        simp [Node.kind, Node.Kind.Walked] at walked
  described index record defined := by
    obtain ⟨id, node, slot, new, _, describes⟩ := finished.linked_at defined
    exact ⟨node, describes, fun _ =>
      ⟨id, new, (Structs.denotes_positive (definition_positive defined)).mpr slot⟩⟩

end

/- The three sorts. -/

theorem agree_qualifiers :
    SortAgrees (s.Says base) s.Denotes Record.Qualifies Node.QualifierOut where
  forward := by
    rintro _ record _ _ describes ⟨node, rfl, rfl⟩
    cases record with
    | qualified =>
      obtain ⟨id, denotes, same⟩ := describes
      cases same
      exact ⟨_, rfl, denotes⟩
    | _ => simp [Structs.Describes] at describes
  backward := by
    rintro _ record node index describes sort
    cases record with
    | qualified =>
      cases sort
      obtain ⟨id, denotes, rfl⟩ := describes
      exact ⟨id, ⟨_, rfl, rfl⟩, denotes⟩
    | _ => cases sort

theorem agree_typedefs : SortAgrees (s.Says base) s.Denotes Record.Renames Node.TypedefOut where
  forward := by
    rintro _ record _ _ describes ⟨node, rfl, rfl⟩
    cases record with
    | typedef =>
      obtain ⟨id, denotes, same⟩ := describes
      cases same
      exact ⟨_, rfl, denotes⟩
    | _ => simp [Structs.Describes] at describes
  backward := by
    rintro _ record node index describes sort
    cases record with
    | typedef =>
      cases sort
      obtain ⟨id, denotes, rfl⟩ := describes
      exact ⟨id, ⟨_, rfl, rfl⟩, denotes⟩
    | _ => cases sort

theorem agree_keys :
    SortAgrees (s.Says base) s.Denotes Record.Encloses (Node.AnonymousOut s.graph) where
  forward := by
    rintro _ record _ _ describes ⟨node, definition, member, rfl, named, defined, memberId, among,
      got, anonymous, rfl⟩
    cases record with
    | structUnion =>
      obtain ⟨ids, held, same⟩ := describes
      cases same
      cases defined
      obtain ⟨raw, listed, _, node', got', typeId, denotes, rfl⟩ := forall₂_mem_right held among
      cases got.symm.trans got'
      exact ⟨raw.type, ⟨named, raw, listed, anonymous, rfl⟩, denotes⟩
    | forward =>
      cases describes
      cases defined
    | _ => simp [Structs.Describes] at describes
  backward := by
    rintro _ record node index describes sort
    cases record with
    | structUnion =>
      obtain ⟨named, raw, listed, anonymous, rfl⟩ := sort
      obtain ⟨ids, held, rfl⟩ := describes
      obtain ⟨memberId, among, _, node', got, typeId, denotes, rfl⟩ := forall₂_mem_left held listed
      exact ⟨typeId, ⟨_, _, _, rfl, named, rfl, memberId, among, got, anonymous, rfl⟩, denotes⟩
    | _ => cases sort

theorem Finished.acyclic_iff (finished : Finished data base records linked root s) :
    s.graph.Acyclic (fun id => base.nodes.length ≤ id.ix) ↔ RecordsAcyclic records :=
  finished.account.acyclic_iff agree_qualifiers agree_typedefs agree_keys

/-- A record never makes a member or a base class by itself. -/
theorem Structs.Describes.kind (describes : s.Describes base record node) :
    node.kind ≠ .member ∧ node.kind ≠ .baseClass := by
  cases record with
  | int | enum | forward =>
    cases describes
    exact ⟨nofun, nofun⟩
  | datasec => cases describes
  | ptr | typedef | qualified | array | symbol | structUnion =>
    obtain ⟨_, _, rfl⟩ := describes
    exact ⟨nofun, nofun⟩
  | funcProto =>
    obtain ⟨_, _, _, _, rfl⟩ := describes
    exact ⟨nofun, nofun⟩

section

variable (finished : Finished data base records linked root s)

include finished

/-- What an index stands for is a new node, and a type. -/
theorem Finished.stands_type {index : UInt32} {id : Id} (stands : s.Stands index id) :
    base.nodes.length ≤ id.ix ∧ ∀ node, s.graph.get id = .ok node →
      node.kind ≠ .member ∧ node.kind ≠ .baseClass := by
  obtain ⟨slots, void, variadic⟩ := finished.lookup_eq
  by_cases zero : index = 0
  · subst zero
    rcases stands with shared | shared
    · constructor
      · exact (finished.inv.void id (void ▸ shared)).1
      · intro node got
        cases got.symm.trans (finished.void_is shared)
        exact ⟨nofun, nofun⟩
    · constructor
      · exact (finished.inv.variadic id (variadic ▸ shared)).1
      · intro node got
        cases got.symm.trans (finished.variadic_is shared)
        exact ⟨nofun, nofun⟩
  · have slot := stands.slot zero
    constructor
    · exact (finished.inv.slot index id (slots ▸ slot)).2.1
    · intro node got
      rcases finished.resolves slot ⟨node, got⟩ with none | ⟨record, defined⟩
      · exact absurd none zero
      · obtain ⟨id', node', slot', _, got', describes⟩ := finished.linked_at defined
        cases slot.symm.trans slot'
        cases got.symm.trans got'
        exact describes.kind

/-- What a new node refers to. -/
theorem Finished.reference {id : Id} (new : base.nodes.length ≤ id.ix)
    (got : s.graph.get id = .ok node) {reference : Id} (among : reference ∈ node.references) :
    (node.kind ≠ .structUnion ∧ ∃ index, s.Stands index reference) ∨
      node.kind = .structUnion ∧ ∃ raw, s.HoldsMember base raw reference := by
  rcases finished.linkedByPosition.made id node new got with rfl | made
  · cases finished.got_root.symm.trans got
    obtain ⟨⟨key, symbol⟩, entry, rfl⟩ := List.mem_map.mp among
    obtain ⟨index, record, name, defined, _, _, slot⟩ := (finished.named.entries key _).mp entry
    rw [← finished.lookup_eq.1] at slot
    exact .inl ⟨nofun, index,
      .inl ((Structs.denotes_positive (definition_positive defined)).mpr slot)⟩
  · cases made with
    | void => cases among
    | variadic => cases among
    | record defined slot =>
      rename_i index record
      obtain ⟨id', node', slot', _, got', describes⟩ := finished.linked_at defined
      cases slot.symm.trans slot'
      cases got.symm.trans got'
      rcases describes.references among with ⟨other, index, _, stands⟩ | ⟨raw, listed, holds⟩
      · exact .inl ⟨other, index, stands⟩
      · cases record with
        | structUnion =>
          obtain ⟨_, _, rfl⟩ := describes
          exact .inr ⟨rfl, raw, holds⟩
        | _ => cases listed
    | member _ described =>
      obtain ⟨typeId, denotes, rfl⟩ := described
      cases List.mem_singleton.mp among
      exact .inl ⟨nofun, _, .inl denotes⟩

theorem Finished.part : s.graph.Part (fun id => base.nodes.length ≤ id.ix) where
  closed := by
    intro id node new got reference among
    rcases finished.reference new got among with ⟨_, index, stands⟩ | ⟨_, raw, holds⟩
    · exact (finished.stands_type stands).1
    · exact holds.1
  members := by
    intro id node definition new got defined memberId among member gotMember
    have refers : memberId ∈ (Node.structUnion node).references := by
      simp [Node.references, defined, among]
    rcases finished.reference new got refers with ⟨other, _⟩ | ⟨_, raw, _, node', held, described⟩
    · exact absurd rfl other
    · obtain ⟨typeId, _, rfl⟩ := described
      cases gotMember.symm.trans held
      rfl
  types := by
    intro id node new got other reference among type gotType
    rcases finished.reference new got among with ⟨_, index, stands⟩ | ⟨aggregate, _⟩
    · exact (finished.stands_type stands).2 type gotType
    · exact absurd aggregate other

end

/-- The walks over what an accepted input makes end, and none of it goes round, if and
only if its records do not go round. -/
theorem process_walks_iff (data : List UInt8) (base : Graph) (verbose : Bool) (fuel : Nat)
    (root : Id) (s : Structs) (enough : data.length < fuel)
    (accepted : (process data fuel verbose).run { graph := base } = .ok root s) :
    ∃ records, Sectioned data records ∧
      (s.graph.WalksEnd (fun id => base.nodes.length ≤ id.ix) ∧
          s.graph.Acyclic (fun id => base.nodes.length ≤ id.ix) ↔
        RecordsAcyclic records) := by
  obtain ⟨records, linked, finished⟩ := (process_ends data base verbose enough).returns accepted
  refine ⟨records, finished.sectioned, ?_⟩
  rw [finished.acyclic_iff]
  constructor
  · exact fun both => both.2
  · intro acyclic
    exact ⟨(finished.acyclic_iff.mpr acyclic).walksEnd finished.part, acyclic⟩

/-- A type that is its own qualification. -/
def selfQualified : List UInt8 := assemble [0, 0x0a000000, 1] [0]

theorem selfQualified_made : made ((process selfQualified 100 false).run { graph := ⟨[]⟩ }) =
    some (⟨1⟩, [some (.qualified ⟨.const, ⟨0⟩⟩), some (.symbols .empty)]) := by
  decide +kernel

theorem selfQualified_endless : ∃ s : Structs,
    (process selfQualified 100 false).run { graph := ⟨[]⟩ } = .ok ⟨1⟩ s ∧
      ∀ fuel, resolveQualifiers s.graph fuel ⟨0⟩ ∅ = .error .outOfFuel := by
  obtain ⟨s, ran, nodes⟩ := returns_of_made selfQualified_made
  change s.graph.nodes = _ at nodes
  refine ⟨s, ran, fun fuel => Graph.resolveQualifiers_walks.endless (.single ?_) fuel ∅⟩
  refine ⟨.qualified ⟨.const, ⟨0⟩⟩, Graph.get_eq_ok.mpr ?_, _, rfl, rfl⟩
  rw [nodes]
  rfl

end Stg.Btf
