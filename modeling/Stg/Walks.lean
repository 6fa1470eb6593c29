import Stg.Resolve
import Stg.Build
import Stg.Lib.Cycle

set_option autoImplicit false

/- When the walks that keep no record of where they have been come to an end. -/
namespace Stg

open Relation (TransGen)

def Node.QualifierOut (node : Node) (next : Id) : Prop :=
  ∃ qualified, node = .qualified qualified ∧ qualified.qualifiedTypeId = next

def Node.TypedefOut (node : Node) (next : Id) : Prop :=
  ∃ typedef, node = .typedef typedef ∧ typedef.referredTypeId = next

/-- The type of one of the anonymous members of an anonymous aggregate. -/
def Node.AnonymousOut (graph : Graph) (node : Node) (next : Id) : Prop :=
  ∃ aggregate definition member, node = .structUnion aggregate ∧ aggregate.name = "" ∧
    aggregate.definition = some definition ∧ ∃ memberId ∈ definition.members,
      graph.get memberId = .ok (.member member) ∧ member.name = "" ∧ member.typeId = next

namespace Graph

/-- A step of a walk from the node of one id to another id. -/
def Goes (graph : Graph) (out : Node → Id → Prop) (id next : Id) : Prop :=
  ∃ node, graph.get id = .ok node ∧ out node next

/-- No walk from a node of the part can go round. -/
structure Acyclic (graph : Graph) (inside : Id → Prop) : Prop where
  qualifiers : ∀ id, inside id → ¬ TransGen (graph.Goes Node.QualifierOut) id id
  typedefs : ∀ id, inside id → ¬ TransGen (graph.Goes Node.TypedefOut) id id
  keys : ∀ id, inside id → ¬ TransGen (graph.Goes (Node.AnonymousOut graph)) id id

/-- The walks from the nodes of the part end, given enough fuel. -/
structure WalksEnd (graph : Graph) (inside : Id → Prop) : Prop where
  qualifiers : ∀ id, inside id → ∃ enough, ∀ fuel, enough ≤ fuel → ∀ qualifiers,
    resolveQualifiers graph fuel id qualifiers ≠ .error .outOfFuel
  typedefs : ∀ id, inside id → ∃ enough, ∀ fuel, enough ≤ fuel → ∀ typedefs,
    resolveTypedefs graph fuel id typedefs ≠ .error .outOfFuel
  keys : ∀ id, inside id → ∃ enough, ∀ fuel, enough ≤ fuel →
    matchingKey graph fuel id ≠ .error .outOfFuel

/-- A part of the graph that has the members of its aggregates, and where nothing else
refers to a member. -/
structure Part (graph : Graph) (inside : Id → Prop) : Prop where
  closed : ∀ id node, inside id → graph.get id = .ok node →
    ∀ reference ∈ node.references, inside reference
  members : ∀ id node definition, inside id → graph.get id = .ok (.structUnion node) →
    node.definition = some definition → ∀ memberId ∈ definition.members, ∀ member,
      graph.get memberId = .ok member → member.kind = .member
  types : ∀ id node, inside id → graph.get id = .ok node → node.kind ≠ .structUnion →
    ∀ reference ∈ node.references, ∀ type, graph.get reference = .ok type →
      type.kind ≠ .member ∧ type.kind ≠ .baseClass

end Graph

section Accounts

variable {κ τ : Type}

/-- A reference of the given sort from the entry of one key to another key. -/
def StepOf (entries : κ → Option τ) (sort : τ → κ → Prop) (key next : κ) : Prop :=
  ∃ entry, entries key = some entry ∧ sort entry next

/-- No references of one sort go round. -/
structure NoneGoesRound (qualifiers typedefs keys : κ → κ → Prop) : Prop where
  qualifiers : ∀ key, ¬ TransGen qualifiers key key
  typedefs : ∀ key, ¬ TransGen typedefs key key
  keys : ∀ key, ¬ TransGen keys key key

/-- The kinds of node that a walk goes on from. -/
def Node.Kind.Walked (kind : Node.Kind) : Prop :=
  kind = .qualified ∨ kind = .typedef ∨ kind = .structUnion

variable {entries : κ → Option τ} {describes : κ → τ → Node → Prop} {stands : κ → Id → Prop}
  {graph : Graph} {inside : Id → Prop}

/-- Each entry describes the node that its key stands for, if that is a node that a walk goes
on from, and the part of the graph has all those that are described. -/
structure Graph.Account (graph : Graph) (inside : Id → Prop) (entries : κ → Option τ)
    (describes : κ → τ → Node → Prop) (stands : κ → Id → Prop) : Prop where
  entry : ∀ key id node, stands key id → graph.get id = .ok node → node.kind.Walked →
    ∃ entry, entries key = some entry ∧ describes key entry node
  node : ∀ key entry id, entries key = some entry → stands key id →
    ∃ node, graph.get id = .ok node ∧ describes key entry node
  key : ∀ i j id node, graph.get id = .ok node → node.kind.Walked → stands i id → stands j id → i = j
  element : ∀ key entry id id', entries key = some entry → stands key id → stands key id' → id = id'
  keyed : ∀ id node, inside id → graph.get id = .ok node → node.kind.Walked → ∃ key, stands key id
  described : ∀ key entry, entries key = some entry → ∃ node, describes key entry node ∧
    (node.kind.Walked → ∃ id, inside id ∧ stands key id)

/-- A reference of a sort from a node is one from the entry that describes it. -/
structure SortAgrees (describes : κ → τ → Node → Prop) (stands : κ → Id → Prop)
    (sortOf : τ → κ → Prop) (sort : Node → Id → Prop) : Prop where
  forward : ∀ key entry node id, describes key entry node → sort node id →
    ∃ next, sortOf entry next ∧ stands next id
  backward : ∀ key entry node next, describes key entry node → sortOf entry next →
    ∃ id, sort node id ∧ stands next id

variable (account : graph.Account inside entries describes stands)

include account

theorem Graph.Account.mirrors {sortOf : τ → κ → Prop} {sort : Node → Id → Prop}
    (walked : ∀ node id, sort node id → node.kind.Walked)
    (agree : SortAgrees describes stands sortOf sort) :
    Cycle.Mirrors (StepOf entries sortOf) (graph.Goes sort) stands where
  forward := by
    rintro i a b stand ⟨node, got, step⟩
    obtain ⟨entry, held, describe⟩ := account.entry i a node stand got (walked node b step)
    obtain ⟨j, stepOf, last⟩ := agree.forward i entry node b describe step
    exact ⟨j, ⟨entry, held, stepOf⟩, last⟩
  backward := by
    rintro i j a stand ⟨entry, held, stepOf⟩
    obtain ⟨node, got, describe⟩ := account.node i entry a held stand
    obtain ⟨b, step, last⟩ := agree.backward i entry node j describe stepOf
    exact ⟨b, ⟨node, got, step⟩, last⟩
  key := by
    rintro i j a b ⟨node, got, step⟩
    exact account.key i j a node got (walked node b step)
  element := by
    rintro i k a b ⟨entry, held, _⟩
    exact account.element i entry a b held

theorem Graph.Account.sort_acyclic_iff {sortOf : τ → κ → Prop} {sort : Node → Id → Prop}
    (walked : ∀ node id, sort node id → node.kind.Walked)
    (agree : SortAgrees describes stands sortOf sort) :
    (∀ id, inside id → ¬ TransGen (graph.Goes sort) id id) ↔
      ∀ key, ¬ TransGen (StepOf entries sortOf) key key := by
  apply (account.mirrors walked agree).acyclic_iff
  · rintro a b within ⟨node, got, step⟩
    exact account.keyed a node within got (walked node b step)
  · rintro i j ⟨entry, held, stepOf⟩
    obtain ⟨node, describe, placed⟩ := account.described i entry held
    obtain ⟨id, step, _⟩ := agree.backward i entry node j describe stepOf
    exact placed (walked node id step)

/-- The walks go round in the graph if and only if the references go round in the account. -/
theorem Graph.Account.acyclic_iff {qualifies renames encloses : τ → κ → Prop}
    (qualifiers : SortAgrees describes stands qualifies Node.QualifierOut)
    (typedefs : SortAgrees describes stands renames Node.TypedefOut)
    (keys : SortAgrees describes stands encloses (Node.AnonymousOut graph)) :
    graph.Acyclic inside ↔
      NoneGoesRound (StepOf entries qualifies) (StepOf entries renames)
        (StepOf entries encloses) := by
  have first := account.sort_acyclic_iff
    (by rintro _ _ ⟨node, rfl, _⟩; exact .inl rfl) qualifiers
  have second := account.sort_acyclic_iff
    (by rintro _ _ ⟨node, rfl, _⟩; exact .inr (.inl rfl)) typedefs
  have third := account.sort_acyclic_iff
    (by rintro _ _ ⟨node, _, _, rfl, _⟩; exact .inr (.inr rfl)) keys
  constructor
  · exact fun acyclic =>
      ⟨first.mp acyclic.qualifiers, second.mp acyclic.typedefs, third.mp acyclic.keys⟩
  · exact fun none_ => ⟨first.mpr none_.qualifiers, second.mpr none_.typedefs, third.mpr none_.keys⟩

end Accounts

namespace Graph

variable {graph : Graph} {inside : Id → Prop}

theorem finite_goes (out : Node → Id → Prop) : {id | ∃ next, graph.Goes out id next}.Finite := by
  apply Set.Finite.subset ((Finset.range graph.nodes.length).image Id.mk).finite_toSet
  rintro id ⟨next, node, got, _⟩
  have inside := Is.lt ⟨node, got⟩
  simp only [Finset.coe_image, Set.mem_image, Finset.coe_range, Set.mem_Iio]
  exact ⟨id.ix, inside, rfl⟩

/-- Steps that do not leave the part and have no cycle in it have no infinite walk in it. -/
theorem acc_inside {out : Node → Id → Prop}
    (closed : ∀ id next, inside id → graph.Goes out id next → inside next)
    (acyclic : ∀ id, inside id → ¬ TransGen (graph.Goes out) id id) {id : Id}
    (within : inside id) : Acc (fun next id => graph.Goes out id next) id := by
  have finite : {id | ∃ next, inside id ∧ graph.Goes out id next}.Finite :=
    (finite_goes out).subset fun _ ⟨next, steps⟩ => ⟨next, steps.2⟩
  have around : ∀ id, ¬ TransGen (fun id next => inside id ∧ graph.Goes out id next) id id := by
    intro id cycle
    obtain ⟨next, first, _⟩ := TransGen.head'_iff.mp cycle
    exact acyclic id first.1 (TransGen.mono (fun _ _ steps => steps.2) id id cycle)
  have founded := Cycle.acc_of_acyclic finite around id
  induction founded with
  | intro id _ ih =>
    apply Acc.intro
    intro next steps
    exact ih next ⟨within, steps⟩ (closed id next within steps)

theorem get_spent {id : Id} : graph.get id ≠ .error .outOfFuel := by
  unfold get
  split
  · exact nofun
  · exact nofun

theorem resolveQualifiers_walks :
    Cycle.Walks (graph.Goes Node.QualifierOut) (resolveQualifiers graph) .outOfFuel where
  zero _ _ := rfl
  last := by
    intro fuel id qualifiers stuck out
    unfold resolveQualifiers at out
    cases got : graph.get id with
    | error reason =>
      rw [got] at out
      cases out
      exact get_spent got
    | ok node =>
      rw [got] at out
      cases node with
      | qualified node => exact stuck _ ⟨_, got, node, rfl, rfl⟩
      | _ => cases out
  next := by
    rintro fuel id _ qualifiers ⟨_, got, node, rfl, rfl⟩
    exact ⟨insert node.qualifier qualifiers, by rw [resolveQualifiers, got]; rfl⟩

theorem resolveTypedefs_walks :
    Cycle.Walks (graph.Goes Node.TypedefOut) (resolveTypedefs graph) .outOfFuel where
  zero _ _ := rfl
  last := by
    intro fuel id typedefs stuck out
    unfold resolveTypedefs at out
    cases got : graph.get id with
    | error reason =>
      rw [got] at out
      cases out
      exact get_spent got
    | ok node =>
      rw [got] at out
      cases node with
      | typedef node => exact stuck _ ⟨_, got, node, rfl, rfl⟩
      | _ => cases out
  next := by
    rintro fuel id _ typedefs ⟨_, got, node, rfl, rfl⟩
    exact ⟨typedefs ++ [node.name], by rw [resolveTypedefs, got]; rfl⟩

theorem firstKey_spent {key : Id → Except Error String} {members : List Id}
    (ends : ∀ member ∈ members, key member ≠ .error .outOfFuel) :
    firstKey key members ≠ .error .outOfFuel := by
  induction members with
  | nil => exact nofun
  | cons member members ih =>
    unfold firstKey
    cases own : key member with
    | error reason =>
      intro out
      cases out
      exact ends member List.mem_cons_self own
    | ok recursive =>
      simp only [bind, Except.bind]
      split
      · exact nofun
      · exact ih fun later among => ends later (List.mem_cons_of_mem _ among)

/-- One fuel is enough for all the elements of a list. -/
theorem enough_of_each {members : List Id} {ends : Nat → Id → Prop}
    (each : ∀ member ∈ members, ∃ enough, ∀ fuel, enough ≤ fuel → ends fuel member) :
    ∃ enough, ∀ fuel, enough ≤ fuel → ∀ member ∈ members, ends fuel member := by
  induction members with
  | nil => exact ⟨0, nofun⟩
  | cons member members ih =>
    obtain ⟨first, endsFirst⟩ := each member List.mem_cons_self
    obtain ⟨rest, endsRest⟩ := ih fun later among => each later (List.mem_cons_of_mem _ among)
    refine ⟨max first rest, fun fuel many later among => ?_⟩
    rcases List.mem_cons.mp among with rfl | among
    · exact endsFirst fuel (by omega)
    · exact endsRest fuel (by omega) later among

/-- The end of the recursion from nodes that are not members. -/
def KeyEnds (graph : Graph) (id : Id) : Prop :=
  ∃ enough, ∀ fuel, enough ≤ fuel → matchingKey graph fuel id ≠ .error .outOfFuel

theorem keyEnds_unset {id : Id} {reason : Error} (got : graph.get id = .error reason) :
    graph.KeyEnds id := by
  refine ⟨1, fun fuel many => ?_⟩
  obtain ⟨fuel, rfl⟩ := Nat.exists_eq_add_of_le' many
  intro out
  rw [matchingKey, got] at out
  cases out
  exact get_spent got

theorem keyEnds_next {id next : Id} (ends : graph.KeyEnds next)
    (steps : ∀ fuel, matchingKey graph (fuel + 1) id = .error .outOfFuel →
      matchingKey graph fuel next = .error .outOfFuel) : graph.KeyEnds id := by
  obtain ⟨enough, ends⟩ := ends
  refine ⟨enough + 1, fun fuel many => ?_⟩
  obtain ⟨fuel, rfl⟩ := Nat.exists_eq_add_of_le' (Nat.le_of_add_left_le many)
  intro out
  exact ends fuel (by omega) (steps fuel out)

/-- A member ends where its type does, if it has no name. -/
theorem keyEnds_member {id : Id} {member : Member} (got : graph.get id = .ok (.member member))
    (ends : member.name = "" → graph.KeyEnds member.typeId) : graph.KeyEnds id := by
  by_cases named : member.name = ""
  · apply keyEnds_next (ends named)
    intro fuel out
    rw [matchingKey, got] at out
    simpa [bind, Except.bind, named] using out
  · refine ⟨1, fun fuel many => ?_⟩
    obtain ⟨fuel, rfl⟩ := Nat.exists_eq_add_of_le' many
    rw [matchingKey, got]
    simp [bind, Except.bind, named, pure, Except.pure]

theorem keyEnds_aggregate {id : Id} {node : StructUnion}
    (got : graph.get id = .ok (.structUnion node))
    (ends : ∀ definition, node.name = "" → node.definition = some definition →
      ∀ memberId ∈ definition.members, graph.KeyEnds memberId) : graph.KeyEnds id := by
  by_cases named : node.name = ""
  · cases defined : node.definition with
    | none =>
      refine ⟨1, fun fuel many => ?_⟩
      obtain ⟨fuel, rfl⟩ := Nat.exists_eq_add_of_le' many
      rw [matchingKey, got]
      simp [bind, Except.bind, named, defined, pure, Except.pure]
    | some definition =>
      obtain ⟨enough, ends⟩ := enough_of_each (ends definition named defined)
      refine ⟨enough + 1, fun fuel many => ?_⟩
      obtain ⟨fuel, rfl⟩ := Nat.exists_eq_add_of_le' (Nat.le_of_add_left_le many)
      rw [matchingKey, got]
      simp only [bind, Except.bind, named, defined]
      exact firstKey_spent (ends fuel (by omega))
  · refine ⟨1, fun fuel many => ?_⟩
    obtain ⟨fuel, rfl⟩ := Nat.exists_eq_add_of_le' many
    rw [matchingKey, got]
    simp [bind, Except.bind, named, pure, Except.pure]

/-- Every other node has an empty key. -/
theorem keyEnds_plain {id : Id} {node : Node} (got : graph.get id = .ok node)
    (aggregate : node.kind ≠ .structUnion) (member : node.kind ≠ .member)
    (base : node.kind ≠ .baseClass) : graph.KeyEnds id := by
  refine ⟨1, fun fuel many => ?_⟩
  obtain ⟨fuel, rfl⟩ := Nat.exists_eq_add_of_le' many
  rw [matchingKey, got]
  cases node with
  | structUnion => exact absurd rfl aggregate
  | member => exact absurd rfl member
  | baseClass => exact absurd rfl base
  | _ => exact nofun

/-- The recursion from a type, along the anonymous members of anonymous aggregates. -/
theorem keyEnds_type (part : graph.Part inside) {id : Id}
    (acc : Acc (fun next id => graph.Goes (Node.AnonymousOut graph) id next) id)
    (within : inside id)
    (type : ∀ node, graph.get id = .ok node → node.kind ≠ .member ∧ node.kind ≠ .baseClass) :
    graph.KeyEnds id := by
  induction acc with
  | intro id _ ih =>
    cases got : graph.get id with
    | error reason => exact keyEnds_unset got
    | ok node =>
      by_cases aggregate : node.kind = .structUnion
      · cases node with
        | structUnion node =>
          apply keyEnds_aggregate got
          intro definition named defined memberId among
          have inner : inside memberId := by
            apply part.closed id _ within got
            simp [Node.references, defined, among]
          cases gotMember : graph.get memberId with
          | error reason => exact keyEnds_unset gotMember
          | ok member =>
            have kind := part.members id node definition within got defined memberId among member
              gotMember
            cases member with
            | member member =>
              apply keyEnds_member gotMember
              intro anonymous
              have refers : member.typeId ∈ (Node.member member).references :=
                List.mem_singleton_self _
              apply ih member.typeId
              · exact ⟨_, got, node, definition, member, rfl, named, defined, memberId, among,
                  gotMember, anonymous, rfl⟩
              · exact part.closed memberId _ inner gotMember _ refers
              · exact part.types memberId _ inner gotMember (by simp [Node.kind]) _ refers
            | _ => cases kind
        | _ => cases aggregate
      · exact keyEnds_plain got aggregate (type node got).1 (type node got).2

theorem keyEnds (part : graph.Part inside) (acyclic : ∀ id, inside id →
    ¬ TransGen (graph.Goes (Node.AnonymousOut graph)) id id) {id : Id} (within : inside id) :
      graph.KeyEnds id := by
  have closed : ∀ id next, inside id → graph.Goes (Node.AnonymousOut graph) id next →
      inside next := by
    rintro id _ within ⟨_, got, node, definition, member, rfl, _, defined, memberId, among, held,
      _, rfl⟩
    have inner : inside memberId := by
      apply part.closed id _ within got
      simp [Node.references, defined, among]
    exact part.closed memberId _ inner held _ (List.mem_singleton_self _)
  have ends : ∀ id node reference, inside id → graph.get id = .ok node →
      node.kind ≠ .structUnion → reference ∈ node.references → graph.KeyEnds reference := by
    intro id node reference within got other refers
    have inner := part.closed id node within got reference refers
    exact keyEnds_type part (acc_inside closed acyclic inner) inner
      (part.types id node within got other reference refers)
  cases got : graph.get id with
  | error reason => exact keyEnds_unset got
  | ok node =>
    cases node with
    | member member =>
      apply keyEnds_member got
      intro _
      exact ends id _ _ within got (by simp [Node.kind]) (List.mem_singleton_self _)
    | baseClass base =>
      apply keyEnds_next (ends id _ base.typeId within got (by simp [Node.kind])
        (List.mem_singleton_self _))
      intro fuel out
      rw [matchingKey, got] at out
      exact out
    | _ =>
      apply keyEnds_type part (acc_inside closed acyclic within) within
      intro node got'
      cases got.symm.trans got'
      exact ⟨nofun, nofun⟩

/-- The walks from a part of the graph end when they cannot go round in it. -/
theorem Acyclic.walksEnd (part : graph.Part inside) (acyclic : graph.Acyclic inside) :
    graph.WalksEnd inside where
  qualifiers := by
    intro id within
    have closed : ∀ id next, inside id → graph.Goes Node.QualifierOut id next → inside next := by
      rintro id _ within ⟨_, got, node, rfl, rfl⟩
      exact part.closed id _ within got _ (List.mem_singleton_self _)
    exact resolveQualifiers_walks.ends (acc_inside closed acyclic.qualifiers within)
  typedefs := by
    intro id within
    have closed : ∀ id next, inside id → graph.Goes Node.TypedefOut id next → inside next := by
      rintro id _ within ⟨_, got, node, rfl, rfl⟩
      exact part.closed id _ within got _ (List.mem_singleton_self _)
    exact resolveTypedefs_walks.ends (acc_inside closed acyclic.typedefs within)
  keys := fun _ within => keyEnds part acyclic.keys within

end Graph

end Stg
