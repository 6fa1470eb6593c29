import Stg.Follows
import Stg.Over

set_option autoImplicit false

/- Two graphs whose nodes correspond, though not one to one, compare the same. -/
namespace Stg

variable {graph graph' : Graph} {ρ τ : Id → Id → Prop} {options : CompareOptions}

section Rename

variable {f f' : Id → Id}

theorem forall₂_map_map {α β : Type} {R : α → α → Prop} {S : β → β → Prop} {g g' : α → β}
    (each : ∀ x y, R x y → S (g x) (g' y)) {xs ys : List α} (related : List.Forall₂ R xs ys) :
    List.Forall₂ S (xs.map g) (ys.map g') :=
  List.forall₂_map_left_iff.mpr (List.forall₂_map_right_iff.mpr (related.imp each))

theorem StructUnion.Definition.Related.rename (each : ∀ id id', ρ id id' → τ (f id) (f' id'))
    {definition definition' : StructUnion.Definition} (related : definition.Related ρ definition') :
    (definition.rename f).Related τ (definition'.rename f') where
  bytesize := related.bytesize
  baseClasses := forall₂_map_map each related.baseClasses
  methods := forall₂_map_map each related.methods
  members := forall₂_map_map each related.members

/-- Related nodes stay related under other ids. -/
theorem Node.Related.rename (each : ∀ id id', ρ id id' → τ (f id) (f' id')) {node node' : Node}
    (related : node.Related ρ ρ node') : (node.rename f).Related τ τ (node'.rename f') := by
  cases related with
  | void => exact .void
  | variadic => exact .variadic
  | pointerReference child => exact .pointerReference (each _ _ child)
  | typedef child => exact .typedef (each _ _ child)
  | qualified child => exact .qualified (each _ _ child)
  | integer => exact .integer
  | array child => exact .array (each _ _ child)
  | baseClass child => exact .baseClass (each _ _ child)
  | member anonymous child =>
    exact .member (fun unnamed => each _ _ (anonymous unnamed)) (each _ _ child)
  | method child => exact .method (each _ _ child)
  | structUnion definitions =>
    apply Node.Related.structUnion
    cases definitions with
    | none => exact .none
    | some definitions => exact .some (definitions.rename each)
  | enumeration => exact .enumeration
  | function child parameters =>
    exact .function (each _ _ child)
      (forall₂_map_map (fun _ _ held => ⟨held.1, each _ _ held.2⟩) parameters)
  | @elfSymbol node id' child =>
    have child' : Option.Rel τ (node.typeId.map f) (id'.map f') := by
      generalize node.typeId = id at child ⊢
      cases child with
      | none => exact .none
      | some child => exact .some (each _ _ child)
    exact @Node.Related.elfSymbol _ _ { node with typeId := node.typeId.map f } _ child'
  | symbols related =>
    exact .symbols (forall₂_map_map (fun _ _ held => ⟨held.1, each _ _ held.2⟩) related)

theorem Node.Related.imp (each : ∀ id id', ρ id id' → τ id id') {node node' : Node}
    (related : node.Related ρ ρ node') : node.Related τ τ node' := by
  have renamed := @Node.Related.rename ρ τ id id each _ _ related
  rwa [Node.rename_id, Node.rename_id] at renamed

end Rename

/-- Where one of two related ids holds a node, the other holds a related one. -/
structure Graph.Resembles (graph graph' : Graph) (ρ : Id → Id → Prop) : Prop where
  nodes : ∀ id id', ρ id id' → ∀ node, graph.get id = .ok node →
    ∃ node', graph'.get id' = .ok node' ∧ node.Related ρ ρ node'
  back : ∀ id id', ρ id id' → graph'.Is id' → graph.Is id

namespace Graph.Resembles

variable {fuel : Nat} {id id' last : Id} {qualifiers qualifiers' : Qualifiers}
  {typedefs typedefs' : List String}

theorem flip (resembles : graph.Resembles graph' ρ) : graph'.Resembles graph (Flipped ρ) where
  nodes id' id held node' got' := by
    obtain ⟨node, got⟩ := resembles.back id id' held ⟨node', got'⟩
    obtain ⟨node'', got'', related⟩ := resembles.nodes id id' held node got
    cases got'.symm.trans got''
    exact ⟨node, got, related.flip⟩
  back id' id held holds := by
    obtain ⟨node, got⟩ := holds
    obtain ⟨node', got', _⟩ := resembles.nodes id id' held node got
    exact ⟨node', got'⟩

theorem resolveQualifiers (resembles : graph.Resembles graph' ρ) (held : ρ id id')
    (found : resolveQualifiers graph fuel id qualifiers = .ok (last, qualifiers')) :
    ∃ last', Stg.resolveQualifiers graph' fuel id' qualifiers = .ok (last', qualifiers') ∧
      ρ last last' := by
  induction fuel generalizing id id' qualifiers with
  | zero => cases found
  | succ fuel ih =>
    obtain ⟨node, got, rest⟩ := bind_eq_ok found
    obtain ⟨node', got', related⟩ := resembles.nodes id id' held node got
    rw [Stg.resolveQualifiers, got']
    cases related with
    | qualified child => exact ih child rest
    | _ =>
      cases rest
      exact ⟨id', rfl, held⟩

theorem resolveTypedefs (resembles : graph.Resembles graph' ρ) (held : ρ id id')
    (found : resolveTypedefs graph fuel id typedefs = .ok (last, typedefs')) :
    ∃ last', Stg.resolveTypedefs graph' fuel id' typedefs = .ok (last', typedefs') ∧
      ρ last last' := by
  induction fuel generalizing id id' typedefs with
  | zero => cases found
  | succ fuel ih =>
    obtain ⟨node, got, rest⟩ := bind_eq_ok found
    obtain ⟨node', got', related⟩ := resembles.nodes id id' held node got
    rw [Stg.resolveTypedefs, got']
    cases related with
    | typedef child => exact ih child rest
    | _ =>
      cases rest
      exact ⟨id', rfl, held⟩

theorem follows (resembles : graph.Resembles graph' ρ) : Follows graph graph' ρ ρ where
  qualifiers held found found' := by
    obtain ⟨fuel, found⟩ := found
    obtain ⟨last', found'', related⟩ := resembles.resolveQualifiers held found
    obtain ⟨rfl, rfl⟩ := found'.unique ⟨fuel, found''⟩
    exact ⟨rfl, related⟩
  typedefs held walked walked' := by
    obtain ⟨fuel, walked⟩ := walked
    obtain ⟨last', walked'', related⟩ := resembles.resolveTypedefs held walked
    obtain ⟨rfl, _⟩ := walked'.unique ⟨fuel, walked''⟩
    exact related
  nodes held settled settled' := by
    obtain ⟨node', got', related⟩ := resembles.nodes _ _ held _ settled.got
    cases got'.symm.trans settled'.got
    exact related
  keys id id' held node got := by
    obtain ⟨node', got', related⟩ := resembles.nodes id id' held node got
    exact ⟨node', got', .inl related⟩
  strict _ _ held := held

/-- Comparisons of related nodes that return find the same. -/
theorem verdict_eq (resembles : graph.Resembles graph' ρ) {node1 node2 node1' node2' : Id}
    (related1 : ρ node1 node1') (related2 : ρ node2 node2') {verdict verdict' : Bool}
    (found : Finds graph options node1 node2 verdict)
    (found' : Finds graph' options node1' node2' verdict') :
    verdict' = verdict :=
  resembles.follows.finds_same resembles.flip.follows related1 related2 found found'

end Graph.Resembles

section Joined

variable {first second first' second' : Graph} {ρ1 ρ2 : Id → Id → Prop}

/-- Ids of graphs that follow others correspond as the ids of the parts do. -/
inductive Graph.Beside (first first' : Graph) (ρ1 ρ2 : Id → Id → Prop) : Id → Id → Prop where
  | below {id id' : Id} (held : ρ1 id id') : Graph.Beside first first' ρ1 ρ2 id id'
  | above {id id' : Id} (held : ρ2 id id') :
    Graph.Beside first first' ρ1 ρ2 (first.beyond id) (first'.beyond id')

theorem Graph.Resembles.beside (resembles1 : first.Resembles first' ρ1)
    (resembles2 : second.Resembles second' ρ2)
    (inside : ∀ id id', ρ1 id id' → id.ix < first.nodes.length ∧ id'.ix < first'.nodes.length) :
    (first.beneath second).Resembles (first'.beneath second') (first.Beside first' ρ1 ρ2) where
  nodes := by
    intro id id' held node got
    cases held with
    | below held =>
      obtain ⟨under, under'⟩ := inside id id' held
      rw [Graph.over_get_below first second under] at got
      obtain ⟨node', got', related⟩ := resembles1.nodes id id' held node got
      rw [Graph.over_get_below first' second' under']
      exact ⟨node', got', related.imp fun _ _ => .below⟩
    | @above own own' held =>
      rw [Graph.over_get] at got ⊢
      cases got2 : second.get own with
      | error =>
        rw [got2] at got
        cases got
      | ok node =>
        rw [got2] at got
        cases got
        obtain ⟨node', got', related⟩ := resembles2.nodes own own' held node got2
        rw [got']
        exact ⟨_, rfl, related.rename fun _ _ => .above⟩
  back := by
    intro id id' held holds
    obtain ⟨node', got'⟩ := holds
    cases held with
    | below held =>
      obtain ⟨under, under'⟩ := inside id id' held
      rw [Graph.over_get_below first' second' under'] at got'
      obtain ⟨node, got⟩ := resembles1.back id id' held ⟨node', got'⟩
      exact ⟨node, by rw [Graph.over_get_below first second under, got]⟩
    | @above own own' held =>
      rw [Graph.over_get] at got'
      cases got2 : second'.get own' with
      | error =>
        rw [got2] at got'
        cases got'
      | ok node =>
        obtain ⟨node, got⟩ := resembles2.back own own' held ⟨_, got2⟩
        exact ⟨_, by rw [Graph.over_get, got]; rfl⟩

end Joined

end Stg
