import Stg.Graph
import Stg.Lib.Ends
import Stg.Lib.Ordered

set_option autoImplicit false

/- How the readers make a graph: slots are allocated once and set once. -/
namespace Stg

def Symbols.insert (symbols : Symbols) (key : SymbolKey) (id : Id) : Symbols :=
  ⟨Ordered.insert symbols.symbols key id, Ordered.ascending_insert symbols.ascending⟩

theorem Symbols.ascending_empty : (([] : List (SymbolKey × Id)).map (·.1)).Pairwise (· < ·) := .nil

def Symbols.empty : Symbols := ⟨[], Symbols.ascending_empty⟩

def Symbols.keys (symbols : Symbols) : List SymbolKey := symbols.symbols.map (·.1)

theorem Symbols.keys_nodup (symbols : Symbols) : symbols.keys.Nodup :=
  symbols.ascending.imp fun less => less.ne

theorem Symbols.insert_perm {symbols : Symbols} {key : SymbolKey} {id : Id}
    (absent : key ∉ symbols.keys) :
    (symbols.insert key id).symbols.Perm ((key, id) :: symbols.symbols) :=
  Ordered.insert_perm absent

theorem Symbols.keys_insert {symbols : Symbols} {key : SymbolKey} {id : Id}
    (absent : key ∉ symbols.keys) : (symbols.insert key id).keys.Perm (key :: symbols.keys) :=
  (insert_perm absent).map _

namespace Graph

/-- Whether the slot has been set. -/
def isSet (graph : Graph) (id : Id) : Except Error Bool :=
  match graph.nodes[id.ix]? with
  | some held => .ok held.isSome
  | none => .error .undefined

def allocate (graph : Graph) : Id × Graph := (⟨graph.nodes.length⟩, ⟨graph.nodes ++ [none]⟩)

def set (graph : Graph) (id : Id) (node : Node) : Except Error Graph :=
  match graph.nodes[id.ix]? with
  | some none => .ok ⟨graph.nodes.set id.ix (some node)⟩
  | some (some _) => .error (.exception "node value already set")
  | none => .error .undefined

def add (graph : Graph) (node : Node) : Except Error (Id × Graph) :=
  let (id, graph) := graph.allocate
  return (id, ← graph.set id node)

variable {graph graph' : Graph} {id : Id} {node : Node}

theorem add_eq (graph : Graph) (node : Node) :
    graph.add node = .ok (⟨graph.nodes.length⟩, ⟨graph.nodes ++ [some node]⟩) := by
  unfold add allocate set
  simp

theorem get_eq_ok : graph.get id = .ok node ↔ graph.nodes[id.ix]? = some (some node) := by
  unfold get
  split
  · rename_i held
    rw [held]
    simp
  · rename_i other
    constructor
    · exact nofun
    · exact fun held => absurd held (other node)

theorem is_iff : graph.Is id ↔ ∃ node, graph.nodes[id.ix]? = some (some node) := by
  simp only [Is, get_eq_ok]

/-- Slots are only added at the end and what is set stays as it is. -/
structure Extends (graph graph' : Graph) : Prop where
  length : graph.nodes.length ≤ graph'.nodes.length
  kept : ∀ (ix : Nat) (node : Node), graph.nodes[ix]? = some (some node) → graph'.nodes[ix]? = some (some node)

theorem Extends.refl (graph : Graph) : graph.Extends graph := ⟨le_refl _, fun _ _ held => held⟩

theorem Extends.trans {graph'' : Graph} (first : graph.Extends graph')
    (second : graph'.Extends graph'') : graph.Extends graph'' :=
  ⟨first.length.trans second.length, fun ix node held =>
    second.kept ix node (first.kept ix node held)⟩

theorem Extends.got (extends_ : graph.Extends graph') (got : graph.get id = .ok node) :
    graph'.get id = .ok node :=
  get_eq_ok.mpr (extends_.kept _ _ (get_eq_ok.mp got))

theorem extends_append (graph : Graph) (slots : List (Option Node)) :
    graph.Extends ⟨graph.nodes ++ slots⟩ where
  length := by simp
  kept ix node held := by
    rw [List.getElem?_append_left (List.getElem?_eq_some_iff.mp held).1]
    exact held

theorem extends_set (empty : graph.nodes[id.ix]? = some none) (node : Node) :
    graph.Extends ⟨graph.nodes.set id.ix (some node)⟩ where
  length := by simp
  kept ix node' held := by
    by_cases same : id.ix = ix
    · subst same
      rw [empty] at held
      cases held
    · rwa [List.getElem?_set_ne same]

end Graph

/-- What a reader works on: among other things, the graph that it makes. -/
class Builder (σ : Type) where
  graph : σ → Graph
  withGraph : Graph → σ → σ

section Building

variable {σ : Type} [Builder σ]

open Builder (graph withGraph)

def add (node : Node) : EStateM Error σ Id := do
  let (id, made) ← ofExcept ((graph (← get)).add node)
  modify (withGraph made)
  return id

/-- A node that is added when it is first asked for, and kept. -/
def getShared (shared : σ → Option Id) (keep : Id → σ → σ) (node : Node) : EStateM Error σ Id := do
  match shared (← get) with
  | some id => return id
  | none =>
    let id ← add node
    modify (keep id)
    return id

variable {s : σ} {node : Node} {returned : Id → σ → Prop} {raised : Error → σ → Prop}

/-- A node is added in a slot of its own. -/
theorem add_run (s : σ) (node : Node) : (add node).run s =
    .ok ⟨(graph s).nodes.length⟩ (withGraph ⟨(graph s).nodes ++ [some node]⟩ s) := by
  unfold add
  simp only [Graph.add_eq]
  rfl

theorem add_ends (node : Node)
    (holds : returned ⟨(graph s).nodes.length⟩ (withGraph ⟨(graph s).nodes ++ [some node]⟩ s)) :
    (add node).Ends s returned raised := by
  unfold EStateM.Ends
  rwa [add_run]

theorem add_bind_ends {β : Type} {rest : Id → EStateM Error σ β} {returned : β → σ → Prop}
    (ends : (rest ⟨(graph s).nodes.length⟩).Ends (withGraph ⟨(graph s).nodes ++ [some node]⟩ s)
      returned raised) :
    (add node >>= rest).Ends s returned raised := by
  unfold EStateM.Ends at ends ⊢
  rwa [EStateM.run_bind_of_ok (add_run s node)]

/-- The node that is shared is there already, or it is the last one now. -/
theorem getShared_ends {shared : σ → Option Id} {keep : Id → σ → σ}
    (known : ∀ id, shared s = some id → returned id s)
    (added : shared s = none → returned ⟨(graph s).nodes.length⟩
      (keep ⟨(graph s).nodes.length⟩ (withGraph ⟨(graph s).nodes ++ [some node]⟩ s))) :
    (getShared shared keep node).Ends s returned raised := by
  unfold getShared
  apply EStateM.Ends.get_bind
  cases held : shared s with
  | some id => exact EStateM.Ends.pure (known id held)
  | none =>
    apply add_bind_ends
    apply EStateM.Ends.modify_bind
    exact EStateM.Ends.pure (added held)

/-- The value and the slots of the graph after a call that returns. -/
def made {α : Type} : EStateM.Result Error σ α → Option (α × List (Option Node))
  | .ok value s => some (value, (graph s).nodes)
  | .error _ _ => none

theorem returns_of_made {α : Type} {result : EStateM.Result Error σ α} {value : α}
    {nodes : List (Option Node)} (given : made result = some (value, nodes)) :
    ∃ s, result = .ok value s ∧ (graph s).nodes = nodes := by
  cases result with
  | ok value s =>
    cases given
    exact ⟨s, rfl, rfl⟩
  | error => cases given

end Building

end Stg
