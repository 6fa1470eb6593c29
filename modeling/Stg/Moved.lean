import Stg.Copies
import Stg.Lib.Lifting
import Stg.Lib.Relabel

set_option autoImplicit false

/- The ids of nodes are only names: a graph and another one that has the same nodes under
other ids are compared in the same way. Here is what that means for the values. -/
namespace Stg

open Relational (Lifting)
open Relabel (relabel)

/-- The second graph has what is inside of the first one, under other ids. -/
structure Graph.Moved (graph graph' : Graph) (π : Equiv.Perm Id) (inside : Id → Prop) : Prop where
  get : ∀ id, inside id → graph'.get (π id) = (graph.get id).map (Node.rename π)
  closed : ∀ id next, inside id → graph.Refers id next → inside next

section Rename

variable {f g : Id → Id}

/-- A node is renamed by what its references are renamed to. -/
theorem Node.rename_congr {node : Node} (same : ∀ id ∈ node.references, f id = g id) :
    node.rename f = node.rename g := by
  cases node with
  | structUnion node =>
    obtain ⟨kind, name, definition⟩ := node
    cases definition with
    | none => rfl
    | some definition =>
      simp only [Node.references, List.forall_mem_append] at same
      simp only [Node.rename, StructUnion.Definition.rename, Option.map_some,
        List.map_congr_left same.1.1, List.map_congr_left same.1.2, List.map_congr_left same.2]
  | function node =>
    simp only [Node.references, List.forall_mem_cons, List.forall_mem_map] at same
    simp only [Node.rename, same.1, Node.function.injEq, FunctionNode.mk.injEq, true_and]
    exact List.map_congr_left fun p among => by rw [same.2 p among]
  | elfSymbol node =>
    have types : node.typeId.map f = node.typeId.map g := by
      apply Option.map_congr
      intro id held
      exact same id (by simpa [Node.references] using held)
    simp only [Node.rename, types]
  | symbols node =>
    simp only [Node.references, List.forall_mem_map] at same
    simp only [Node.rename, Symbols.rename, Node.symbols.injEq, Symbols.mk.injEq]
    exact List.map_congr_left fun symbol among => by rw [same symbol among]
  | void | variadic | integer | enumeration => rfl
  | pointerReference | typedef | qualified | array | baseClass | member | method =>
    simp only [Node.references, List.forall_mem_singleton] at same
    simp only [Node.rename, same]

@[simp] theorem Node.rename_id (node : Node) : node.rename id = node := by
  cases node <;> simp [Node.rename, StructUnion.Definition.rename, Symbols.rename]

theorem Node.rename_self {node : Node} (same : ∀ id ∈ node.references, f id = id) :
    node.rename f = node := by
  rw [Node.rename_congr (g := id) same, Node.rename_id]

/-- Renaming twice is renaming by the composition. -/
theorem Node.rename_rename (node : Node) : (node.rename f).rename g = node.rename (g ∘ f) := by
  cases node <;> simp [Node.rename, StructUnion.Definition.rename, Symbols.rename,
    Function.comp_def]

/-- The references of a renamed node are its references renamed, in order. -/
theorem Node.references_rename (node : Node) :
    (node.rename f).references = node.references.map f := by
  cases node with
  | structUnion node =>
    cases held : node.definition <;>
      simp [Node.rename, Node.references, StructUnion.Definition.rename, held]
  | elfSymbol node => cases held : node.typeId <;> simp [Node.rename, Node.references, held]
  | function | symbols => simp [Node.rename, Node.references, Symbols.rename]
  | _ => rfl

end Rename

section Values

variable (π : Equiv.Perm Id)

/-- The id of a node that is inside, and its id in the other graph. -/
def Moves (inside : Id → Prop) (id id' : Id) : Prop := inside id ∧ id' = π id

/-- A comparison under the other ids; two comparisons are never taken to one. -/
def Comparison.move : Comparison ↪ Comparison where
  toFun c := (c.1.map π, c.2.map π)
  inj' := by
    rintro ⟨first, second⟩ ⟨first', second'⟩ same
    have inj := Option.map_injective π.injective
    exact Prod.ext (inj (congrArg Prod.fst same)) (inj (congrArg Prod.snd same))

def DiffDetail.move (detail : DiffDetail) : DiffDetail where
  text := detail.text
  edge := detail.edge.map (Comparison.move π)

/-- Differences keep their texts, and their edges are moved. -/
def Diff.move (diff : Diff) : Diff :=
  { diff with details := diff.details.map (DiffDetail.move π) }

def Result.move (result : Result) : Result where
  equals := result.equals
  diff := result.diff.move π

def moveAnswer (answer : Answer) : Answer := (answer.1, answer.2.map (Comparison.move π))

/-- The whole table: keys and values are moved, and the order of entries stays. -/
def Outcomes.move (outcomes : Outcomes) : Outcomes := relabel (Comparison.move π) (Diff.move π) outcomes

def Scc.move {ν ν' : Type} (f : ν ↪ ν') (s : Scc ν) : Scc ν' where
  open_ := s.open_.map f
  isOpen := relabel f id s.isOpen
  rootIndex := s.rootIndex

/-- The state of a comparison under the other ids. -/
def State.move (s : State) : State where
  known := relabel (Comparison.move π) id s.known
  outcomes := Outcomes.move π s.outcomes
  provisional := Outcomes.move π s.provisional
  scc := s.scc.move (Comparison.move π)

@[simp] theorem Comparison.move_mk (first second : Option Id) :
    Comparison.move π (first, second) = (first.map π, second.map π) := rfl

@[simp] theorem Diff.move_empty : Diff.move π {} = {} := rfl

@[simp] theorem Diff.move_holdsChanges (diff : Diff) :
    (diff.move π).holdsChanges = diff.holdsChanges := rfl

@[simp] theorem Diff.move_hasChanges (diff : Diff) :
    (diff.move π).hasChanges = diff.hasChanges := rfl

@[simp] theorem Diff.move_details (diff : Diff) :
    (diff.move π).details = diff.details.map (DiffDetail.move π) := rfl

namespace Result

variable (result : Result) (text : String)

@[simp] theorem move_empty : Result.move π {} = {} := rfl

@[simp] theorem move_markIncomparable :
    result.markIncomparable.move π = (result.move π).markIncomparable := rfl

/-- Recording a difference and moving may be done in either order. -/
@[simp] theorem move_addNodeDiff :
    (result.addNodeDiff text).move π = (result.move π).addNodeDiff text := by
  simp [Result.move, addNodeDiff, Diff.move, Diff.add, DiffDetail.move]

@[simp] theorem move_maybeAddNodeDiff {α : Type} [DecidableEq α] [Print α] (before after : α) :
    (result.maybeAddNodeDiff text before after).move π =
      (result.move π).maybeAddNodeDiff text before after := by
  unfold maybeAddNodeDiff
  split
  · exact move_addNodeDiff π result _
  · rfl

@[simp] theorem move_maybeAddOptionalNodeDiff {α : Type} [DecidableEq α] [Print α]
    (before after : Option α) :
    (result.maybeAddOptionalNodeDiff text before after).move π =
      (result.move π).maybeAddOptionalNodeDiff text before after := by
  cases before <;> cases after <;> simp [maybeAddOptionalNodeDiff]

@[simp] theorem move_addEdgeDiff (comparison : Comparison) :
    (result.addEdgeDiff text comparison).move π =
      (result.move π).addEdgeDiff text (Comparison.move π comparison) := by
  simp [Result.move, addEdgeDiff, Diff.move, Diff.add, DiffDetail.move]

@[simp] theorem move_maybeAddEdgeDiff (answer : Answer) :
    (result.maybeAddEdgeDiff text answer).move π =
      (result.move π).maybeAddEdgeDiff text (moveAnswer π answer) := by
  obtain ⟨equals, comparison⟩ := answer
  cases comparison <;>
    simp [Result.move, maybeAddEdgeDiff, moveAnswer, Diff.move, Diff.add, DiffDetail.move]

end Result

end Values

section Scc

variable {ν ν' : Type} [DecidableEq ν] [DecidableEq ν'] (f : ν ↪ ν') (s : Scc ν)

/-- The finder opens and closes at the same indexes. -/
theorem Scc.openNode_move (node : ν) :
    (s.move f).openNode (f node) = (s.openNode node).map (Prod.map id (Scc.move f)) := by
  unfold openNode
  simp only [move, Relabel.lookup_relabel, Option.map_id, id_eq]
  cases s.isOpen.lookup node with
  | none => simp [Except.map, move]
  | some ix =>
    dsimp only
    rw [apply_ite (Except.map _)]
    rfl

theorem Scc.closeNode_move (ix : Nat) :
    (s.move f).closeNode ix = (s.closeNode ix).map (Prod.map (List.map f) (Scc.move f)) := by
  have same : (s.move f).open_.length = s.open_.length := List.length_map _
  unfold closeNode
  rw [same]
  by_cases inside : ix < s.open_.length
  · simp only [check, inside, decide_true, ↓reduceIte, pure_bind]
    rw [show (s.move f).rootIndex = s.rootIndex from rfl]
    cases s.rootIndex.getLast? with
    | none => rfl
    | some root =>
      dsimp only
      by_cases last : ix = root
      · rw [if_pos last, if_pos last]
        simp [Except.map, pure, Except.pure, move, List.map_drop, List.map_take,
          Relabel.relabel_foldl_erase]
      · rw [if_neg last, if_neg last]
        rfl
  · simp [check, inside, Except.map, throw, throwThe, MonadExceptOf.throw, bind, Except.bind]

end Scc

section Walks

variable {π : Equiv.Perm Id} {graph graph' : Graph} {inside : Id → Prop}

/-- Both walks return related values or both raise the same error. -/
abbrev Alongside {α α' : Type} (R : α → α' → Prop) (call : Except Error α) (call' : Except Error α') :
    Prop := (Lifting.exactly Error).rel R call call'

theorem Alongside.of_eq {α : Type} {call call' : Except Error α} (same : call' = call) :
    Alongside (fun value value' => value' = value) call call' := by
  subst same
  cases call' <;> rfl

variable (moved : graph.Moved graph' π inside)

include moved

/-- The nodes are the same but for the ids, and refer to nodes that are inside. -/
theorem Graph.Moved.got {id : Id} (within : inside id) :
    Alongside (fun node node' => node' = node.rename π ∧ ∀ next ∈ node.references, inside next)
      (graph.get id) (graph'.get (π id)) := by
  rw [moved.get id within]
  cases got : graph.get id with
  | error => rfl
  | ok node => exact ⟨rfl, fun next among => moved.closed id next within ⟨node, got, among⟩⟩

/-- Walks end at the moved node, and collect the same. -/
theorem Graph.Moved.resolveQualifiers (fuel : Nat) {id : Id} (within : inside id)
    (qualifiers : Qualifiers) :
    Alongside (fun out out' => inside out.1 ∧ out' = (π out.1, out.2))
      (resolveQualifiers graph fuel id qualifiers)
        (Stg.resolveQualifiers graph' fuel (π id) qualifiers) := by
  induction fuel generalizing id qualifiers with
  | zero => rfl
  | succ fuel ih =>
    refine (Lifting.exactly Error).bind (moved.got within) ?_
    rintro node _ ⟨rfl, references⟩
    cases node with
    | qualified node => exact ih (references _ (by simp [Node.references])) _
    | _ => exact ⟨within, rfl⟩

theorem Graph.Moved.resolveTypedefs (fuel : Nat) {id : Id} (within : inside id)
    (typedefs : List String) :
    Alongside (fun out out' => inside out.1 ∧ out' = (π out.1, out.2))
      (resolveTypedefs graph fuel id typedefs)
        (Stg.resolveTypedefs graph' fuel (π id) typedefs) := by
  induction fuel generalizing id typedefs with
  | zero => rfl
  | succ fuel ih =>
    refine (Lifting.exactly Error).bind (moved.got within) ?_
    rintro node _ ⟨rfl, references⟩
    cases node with
    | typedef node => exact ih (references _ (by simp [Node.references])) _
    | _ => exact ⟨within, rfl⟩

omit moved in
/-- The first member that has a key is the same one. -/
theorem firstKey_move {key key' : Id → Except Error String} {members : List Id}
    (each : ∀ id ∈ members, key' (π id) = key id) :
    firstKey key' (members.map π) = firstKey key members := by
  induction members with
  | nil => rfl
  | cons member members ih =>
    have rest := ih fun id among => each id (List.mem_cons_of_mem _ among)
    rw [List.map_cons, firstKey, firstKey, each member List.mem_cons_self, rest]

theorem Graph.Moved.matchingKey (fuel : Nat) {id : Id} (within : inside id) :
    Stg.matchingKey graph' fuel (π id) = matchingKey graph fuel id := by
  induction fuel generalizing id with
  | zero => rfl
  | succ fuel ih =>
    rw [Stg.matchingKey, Stg.matchingKey, moved.get id within]
    cases got : graph.get id with
    | error => rfl
    | ok node =>
      have references : ∀ next ∈ node.references, inside next :=
        fun next among => moved.closed id next within ⟨node, got, among⟩
      cases node with
      | baseClass node => exact ih (references _ (by simp [Node.references]))
      | member node =>
        have next := ih (references node.typeId (by simp [Node.references]))
        simp only [Except.map, Node.rename, bind, Except.bind, next]
      | structUnion node =>
        simp only [Except.map, Node.rename, bind, Except.bind]
        split
        · rfl
        · cases held : node.definition with
          | none => rfl
          | some definition =>
            apply firstKey_move
            intro id among
            exact ih (references id (by simp [Node.references, held, among]))
      | _ => rfl

omit moved in
theorem indexKeys_move {key key' : Id → Except Error String} {nodes : List Id}
    (each : ∀ id ∈ nodes, key' (π id) = key id) (ix anonymousIx : Nat) :
    indexKeys key' ix anonymousIx (nodes.map π) = indexKeys key ix anonymousIx nodes := by
  induction nodes generalizing ix anonymousIx with
  | nil => rfl
  | cons node nodes ih =>
    have rest := ih fun id among => each id (List.mem_cons_of_mem _ among)
    simp only [List.map_cons, indexKeys, each node List.mem_cons_self, rest]

/-- Children are matched by the same keys, and so in the same pairs. -/
theorem Graph.Moved.matchingKeys (fuel : Nat) {nodes : List Id} (within : ∀ id ∈ nodes, inside id) :
    Stg.matchingKeys graph' fuel (nodes.map π) = matchingKeys graph fuel nodes := by
  unfold Stg.matchingKeys
  rw [indexKeys_move fun id among => moved.matchingKey fuel (within id among)]

end Walks

end Stg
