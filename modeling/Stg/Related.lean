import Stg.Equal

set_option autoImplicit false

/- Nodes that are the same but for the nodes they refer to, in one graph or in two. -/
namespace Stg

variable {ρ ρ1 ρ2 σ σ1 σ2 : Id → Id → Prop} {graph graph' : Graph} {options : CompareOptions}
  {fuel fuel' : Nat} {plan : Plan}

structure StructUnion.Definition.Related (σ : Id → Id → Prop)
    (definition definition' : StructUnion.Definition) : Prop where
  bytesize : definition'.bytesize = definition.bytesize
  baseClasses : List.Forall₂ σ definition.baseClasses definition'.baseClasses
  methods : List.Forall₂ σ definition.methods definition'.methods
  members : List.Forall₂ σ definition.members definition'.members

/-- The nodes have the same attributes, and their references are related: those that
matching keys are taken through by `σ`, the others by `ρ`. -/
inductive Node.Related (ρ σ : Id → Id → Prop) : Node → Node → Prop where
  | void : Node.Related ρ σ .void .void
  | variadic : Node.Related ρ σ .variadic .variadic
  | pointerReference {kind : PointerReference.Kind} {id id' : Id} : ρ id id' →
    Node.Related ρ σ (.pointerReference ⟨kind, id⟩) (.pointerReference ⟨kind, id'⟩)
  | typedef {name : String} {id id' : Id} : ρ id id' →
    Node.Related ρ σ (.typedef ⟨name, id⟩) (.typedef ⟨name, id'⟩)
  | qualified {qualifier : Qualifier} {id id' : Id} : ρ id id' →
    Node.Related ρ σ (.qualified ⟨qualifier, id⟩) (.qualified ⟨qualifier, id'⟩)
  | integer {node : Integer} : Node.Related ρ σ (.integer node) (.integer node)
  | array {size : UInt64} {id id' : Id} : ρ id id' →
    Node.Related ρ σ (.array ⟨size, id⟩) (.array ⟨size, id'⟩)
  | baseClass {id id' : Id} {offset : UInt64} {inheritance : BaseClass.Inheritance} : σ id id' →
    Node.Related ρ σ (.baseClass ⟨id, offset, inheritance⟩) (.baseClass ⟨id', offset, inheritance⟩)
  | member {name : String} {id id' : Id} {offset bitsize : UInt64} : (name = "" → σ id id') →
    ρ id id' → Node.Related ρ σ (.member ⟨name, id, offset, bitsize⟩)
      (.member ⟨name, id', offset, bitsize⟩)
  | method {mangledName name : String} {kind : Method.Kind} {vtableOffset : Option UInt64}
      {id id' : Id} : ρ id id' → Node.Related ρ σ
      (.method ⟨mangledName, name, kind, vtableOffset, id⟩)
      (.method ⟨mangledName, name, kind, vtableOffset, id'⟩)
  | structUnion {kind : StructUnion.Kind} {name : String}
      {definition definition' : Option StructUnion.Definition} :
    Option.Rel (StructUnion.Definition.Related σ) definition definition' →
    Node.Related ρ σ (.structUnion ⟨kind, name, definition⟩)
      (.structUnion ⟨kind, name, definition'⟩)
  | enumeration {node : Enumeration} : Node.Related ρ σ (.enumeration node) (.enumeration node)
  | function {id id' : Id} {parameters parameters' : List Parameter} : ρ id id' →
    List.Forall₂ (fun p p' => p'.name = p.name ∧ ρ p.typeId p'.typeId) parameters parameters' →
    Node.Related ρ σ (.function ⟨id, parameters⟩) (.function ⟨id', parameters'⟩)
  | elfSymbol {node : ElfSymbol} {id' : Option Id} : Option.Rel ρ node.typeId id' →
    Node.Related ρ σ (.elfSymbol node) (.elfSymbol { node with typeId := id' })
  | symbols {node node' : Symbols} :
    List.Forall₂ (fun symbol symbol' => symbol'.1 = symbol.1 ∧ ρ symbol.2 symbol'.2)
      node.symbols node'.symbols → Node.Related ρ σ (.symbols node) (.symbols node')

theorem Node.Related.kind {node node' : Node} (related : node.Related ρ σ node') :
    node'.kind = node.kind := by
  cases related <;> rfl

section Flip

/-- The relation in the other direction. -/
abbrev Flipped (ρ : Id → Id → Prop) (id' id : Id) : Prop := ρ id id'

theorem forall₂_flip {α β : Type} {R : α → β → Prop} {R' : β → α → Prop} {xs : List α} {ys : List β}
    (each : ∀ x y, R x y → R' y x) (related : List.Forall₂ R xs ys) : List.Forall₂ R' ys xs :=
  List.Forall₂.flip (related.imp each)

theorem StructUnion.Definition.Related.flip {definition definition' : StructUnion.Definition}
    (related : definition.Related σ definition') : definition'.Related (Flipped σ) definition where
  bytesize := related.bytesize.symm
  baseClasses := related.baseClasses.flip
  methods := related.methods.flip
  members := related.members.flip

theorem Node.Related.flip {node node' : Node} (related : node.Related ρ σ node') :
    node'.Related (Flipped ρ) (Flipped σ) node := by
  cases related with
  | void => exact .void
  | variadic => exact .variadic
  | pointerReference child => exact .pointerReference child
  | typedef child => exact .typedef child
  | qualified child => exact .qualified child
  | integer => exact .integer
  | array child => exact .array child
  | baseClass child => exact .baseClass child
  | member anonymous child => exact .member anonymous child
  | method child => exact .method child
  | structUnion definitions =>
    apply Node.Related.structUnion
    cases definitions with
    | none => exact .none
    | some definitions => exact .some definitions.flip
  | enumeration => exact .enumeration
  | function child parameters =>
    exact .function child (forall₂_flip (fun _ _ held => ⟨held.1.symm, held.2⟩) parameters)
  | @elfSymbol node id' child =>
    have child' : Option.Rel (Flipped ρ) id' node.typeId := by
      generalize node.typeId = id at child ⊢
      cases child with
      | none => exact .none
      | some child => exact .some child
    exact @Node.Related.elfSymbol _ _ { node with typeId := id' } _ child'
  | symbols related =>
    exact .symbols (forall₂_flip (fun _ _ held => ⟨held.1.symm, held.2⟩) related)

end Flip

section Keys

/-- Related nodes of the two graphs are looked up under related ids, unless both are
qualifiers, which have no keys. -/
def KeysFollow (graph graph' : Graph) (ρ σ : Id → Id → Prop) : Prop :=
  ∀ id id', σ id id' → ∀ node, graph.get id = .ok node → ∃ node', graph'.get id' = .ok node' ∧
    (node.Related ρ σ node' ∨ node.kind = .qualified ∧ node'.kind = .qualified)

theorem KeysFollow.matchingKey (follow : KeysFollow graph graph' ρ σ) (fuel : Nat) {id id' : Id}
    (held : σ id id') : Yields (matchingKey graph fuel id) (matchingKey graph' fuel id') := by
  induction fuel generalizing id id' with
  | zero => exact Yields.error _ _
  | succ fuel ih =>
    intro key found
    obtain ⟨node, got, found⟩ := bind_eq_ok found
    obtain ⟨node', got', related⟩ := follow id id' held node got
    rw [Stg.matchingKey, got']
    rcases related with related | ⟨kind, kind'⟩
    · cases related with
      | baseClass child => exact ih child key found
      | @member name id id' offset bitsize child _ =>
        dsimp only [bind, Except.bind] at found ⊢
        split
        · rename_i named
          rwa [if_pos named] at found
        · rename_i anonymous
          rw [if_neg anonymous] at found
          exact ih (child (not_not.mp anonymous)) key found
      | @structUnion kind name definition definition' definitions =>
        dsimp only [bind, Except.bind] at found ⊢
        split
        · rename_i named
          rwa [if_pos named] at found
        · rename_i anonymous
          rw [if_neg anonymous] at found
          cases definitions with
          | none => exact found
          | some definitions =>
            exact firstKey_yields (definitions.members.imp fun _ _ child => ih child) key found
      | _ => exact found
    · cases node <;> cases kind
      cases node' <;> cases kind'
      exact found

theorem KeysFollow.matchingKeys (follow : KeysFollow graph graph' ρ σ) (enough : fuel ≤ fuel')
    {nodes nodes' : List Id} (related : List.Forall₂ σ nodes nodes') :
    Yields (matchingKeys graph fuel nodes) (matchingKeys graph' fuel' nodes') := by
  have keys : ∀ id id', σ id id' →
      Yields (Stg.matchingKey graph fuel id) (Stg.matchingKey graph' fuel' id') :=
    fun id id' held key found =>
      matchingKey_yields enough id' key (follow.matchingKey fuel held key found)
  exact Yields.bind (indexKeys_yields (related.imp keys) 0 0) fun _ => Yields.refl _

end Keys

section Matches

variable {nodes nodes' : List Id}

theorem getD_related (related : List.Forall₂ ρ nodes nodes') {i : Nat} (inside : i < nodes.length)
    (absent : Id) : ρ (nodes.getD i absent) (nodes'.getD i absent) := by
  have inside' : i < nodes'.length := related.length_eq ▸ inside
  have held := related.get inside inside'
  simpa [inside, inside'] using held

/-- Lists of related nodes with the same keys pair up position by position. -/
theorem nodesMatch_of_related (follow : KeysFollow graph graph ρ σ)
    (strict : ∀ id id', σ id id' → ρ id id') (related : List.Forall₂ σ nodes nodes')
    {reordered : Bool} {steps : List Step}
    (planned : nodeSteps graph fuel nodes nodes' reordered = .ok steps) :
    NodesMatch graph ρ nodes nodes' := by
  obtain ⟨keys, found, _⟩ := bind_eq_ok planned
  have found' := follow.matchingKeys (Nat.le_refl fuel) related keys found
  refine ⟨_, _, ⟨fuel, keys, found, rfl⟩, ⟨fuel, keys, found', rfl⟩, ?_⟩
  rw [List.forall₂_map_left_iff, List.forall₂_map_right_iff]
  apply List.forall₂_same.mpr
  intro key present
  exact ⟨rfl, strict _ _ (getD_related related (matchingKeys_inside found key present) _)⟩

/-- Related nodes of one graph are equal as far as their references are. -/
theorem Node.Related.matches_ {node node' : Node} (related : node.Related ρ σ node')
    (follow : KeysFollow graph graph ρ σ) (strict : ∀ id id', σ id id' → ρ id id')
    (planned : node.plan graph options fuel node' = .ok plan) :
    node.Matches graph options ρ node' := by
  cases related with
  | void => exact .void
  | variadic => exact .variadic
  | pointerReference child => exact .pointerReference rfl child
  | typedef => cases planned
  | qualified => cases planned
  | integer => exact .integer rfl rfl fun _ _ => rfl
  | array child => exact .array rfl child
  | baseClass child => exact .baseClass rfl rfl (strict _ _ child)
  | member _ child => exact .member rfl rfl child
  | method child => exact .method rfl rfl child
  | structUnion definitions =>
    refine .structUnion rfl rfl ?_
    cases definitions with
    | none => exact .inr rfl
    | some definitions =>
      simp only [Node.plan, StructUnion.plan, ne_eq, not_true, or_self, if_false] at planned
      obtain ⟨baseClasses, planned1, rest1⟩ := bind_eq_ok planned
      obtain ⟨methods, planned2, rest2⟩ := bind_eq_ok rest1
      obtain ⟨members, planned3, _⟩ := bind_eq_ok rest2
      exact ⟨definitions.bytesize.symm,
        nodesMatch_of_related follow strict definitions.baseClasses planned1,
        nodesMatch_of_related follow strict definitions.methods planned2,
        nodesMatch_of_related follow strict definitions.members planned3⟩
  | @enumeration node =>
    refine .enumeration rfl ?_
    cases node.definition with
    | none => exact .inr rfl
    | some definition => exact ⟨rfl, List.forall₂_same.mpr fun _ _ => ⟨rfl, rfl⟩⟩
  | function child parameters => exact .function child (parameters.imp fun _ _ held => held.2)
  | @elfSymbol node id' child =>
    refine .elfSymbol rfl rfl rfl rfl rfl rfl rfl ?_
    cases held : node.typeId with
    | none =>
      rw [held] at child
      cases child
      exact .inr rfl
    | some id =>
      rw [held] at child
      cases child with
      | some child => exact child
  | symbols related =>
    exact .symbols (related.imp fun _ _ held => ⟨held.1.symm, held.2⟩)

end Matches

end Stg
