import Stg.Moved
import Stg.Build

set_option autoImplicit false

/- A graph that follows another one: its nodes come after those of the other, and refer to
each other there. Building a graph does not depend on what it follows. -/
namespace Stg

open Relational (Lifting)

namespace Graph

/-- The id in a graph that follows the base. -/
def beyond (base : Graph) : Id ↪ Id where
  toFun id := ⟨base.nodes.length + id.ix⟩
  inj' := by
    rintro ⟨ix⟩ ⟨ix'⟩ same
    simpa using same

def beneath (base graph : Graph) : Graph :=
  ⟨base.nodes ++ graph.nodes.map (·.map (Node.rename base.beyond))⟩

variable (base graph : Graph) {id : Id}

@[simp] theorem beyond_ix (id : Id) : (base.beyond id).ix = base.nodes.length + id.ix := rfl

@[simp] theorem beyond_mk (ix : Nat) : base.beyond ⟨ix⟩ = ⟨base.nodes.length + ix⟩ := rfl

@[simp] theorem over_empty : base.beneath ⟨[]⟩ = base := by
  cases base
  simp [beneath]

@[simp] theorem over_slot (id : Id) : (base.beneath graph).nodes[(base.beyond id).ix]? =
    (graph.nodes[id.ix]?).map (·.map (Node.rename base.beyond)) := by
  rw [beyond_ix, beneath, List.getElem?_append_right (Nat.le_add_right _ _),
    Nat.add_sub_cancel_left,
    List.getElem?_map]

/-- The slots of the base are as they are. -/
theorem over_below (below : id.ix < base.nodes.length) :
    (base.beneath graph).nodes[id.ix]? = base.nodes[id.ix]? :=
  List.getElem?_append_left below

theorem over_get (id : Id) :
    (base.beneath graph).get (base.beyond id) = (graph.get id).map (Node.rename base.beyond) := by
  unfold get
  rw [over_slot]
  rcases graph.nodes[id.ix]? with _ | _ | node <;> rfl

theorem over_get_below (below : id.ix < base.nodes.length) :
    (base.beneath graph).get id = base.get id := by
  unfold get
  rw [over_below base graph below]

theorem over_allocate :
    (base.beneath graph).allocate =
      (base.beyond graph.allocate.1, base.beneath graph.allocate.2) := by
  simp [allocate, beneath]

theorem over_isSet (id : Id) : (base.beneath graph).isSet (base.beyond id) = graph.isSet id := by
  unfold isSet
  rw [over_slot]
  rcases graph.nodes[id.ix]? with _ | _ | node <;> rfl

theorem over_set (id : Id) (node : Node) :
    (base.beneath graph).set (base.beyond id) (node.rename base.beyond) =
      (graph.set id node).map base.beneath := by
  unfold set
  rw [over_slot]
  rcases graph.nodes[id.ix]? with _ | _ | held
  · rfl
  · simp only [Option.map_some, Option.map_none, Except.map, beneath, beyond_ix, List.map_set]
    rw [List.set_append_right _ _ (Nat.le_add_right _ _), Nat.add_sub_cancel_left]
  · rfl

theorem over_add (node : Node) :
    (base.beneath graph).add (node.rename base.beyond) =
      (graph.add node).map (Prod.map base.beyond base.beneath) := by
  rw [add_eq, add_eq]
  simp [beneath, Except.map]

end Graph

variable {base : Graph}

abbrev Beyond (base : Graph) (id id' : Id) : Prop := id' = base.beyond id

/-- The state of a reader becomes that of one whose graph follows the base. -/
structure Beneath (base : Graph) {σ : Type} [Builder σ] (beneath : σ → σ) : Prop where
  graph : ∀ s, Builder.graph (beneath s) = base.beneath (Builder.graph s)
  withGraph : ∀ graph s,
    Builder.withGraph (base.beneath graph) (beneath s) = beneath (Builder.withGraph graph s)

section Building

variable {σ : Type} [Builder σ] {beneath : σ → σ} (under : Beneath base beneath)

include under

theorem Beneath.add (node : Node) :
    (Lifting.stateful Error fun s s' => s' = beneath s).rel (Beyond base)
    (add node) (add (node.rename base.beyond)) := by
  rintro s _ rfl
  rw [add_run, add_run]
  have same := base.over_add (Builder.graph s) node
  rw [Graph.add_eq, Graph.add_eq] at same
  obtain ⟨ids, graphs⟩ := Prod.mk.inj (Except.ok.inj same)
  rw [under.graph, graphs, under.withGraph]
  exact ⟨ids, rfl⟩

/-- A node that is shared is so in both, if it refers to no other. -/
theorem Beneath.getShared {shared : σ → Option Id} {keep : Id → σ → σ} {node : Node}
    (looked : ∀ s, shared (beneath s) = (shared s).map base.beyond)
    (kept : ∀ id s, keep (base.beyond id) (beneath s) = beneath (keep id s))
    (alone : node.rename base.beyond = node) :
    (Lifting.stateful Error fun s s' => s' = beneath s).rel (Beyond base)
      (getShared shared keep node) (getShared shared keep node) := by
  refine (Lifting.stateful Error _).bind Lifting.stateful_get ?_
  rintro s _ rfl
  rw [looked]
  cases shared s with
  | some id => exact (Lifting.stateful Error _).pure rfl
  | none =>
    have added := under.add node
    rw [alone] at added
    refine (Lifting.stateful Error _).bind added ?_
    rintro id _ rfl
    refine (Lifting.stateful Error _).bind (Lifting.stateful_modify ?_) fun _ _ _ =>
      (Lifting.stateful Error _).pure rfl
    rintro s _ rfl
    exact kept id s

end Building

def Parameter.beneath (base : Graph) (p : Parameter) : Parameter := { p with typeId := base.beyond p.typeId }

theorem Symbols.insert_over (symbols : Symbols) (key : SymbolKey) (id : Id) :
    (symbols.rename base.beyond).insert key (base.beyond id) = (symbols.insert key id).rename
      base.beyond := by
  have mapped := Ordered.insert_map base.beyond symbols.symbols key id
  simp only [Symbols.insert, Symbols.rename, mapped]

theorem Symbols.keys_over (symbols : Symbols) :
    (symbols.rename base.beyond).keys = symbols.keys := by
  simp [Symbols.keys, Symbols.rename]

end Stg
