import Stg.Moved

set_option autoImplicit false

/- Comparing nodes under other ids does the same, step by step: the stores hold the same
under the other ids, and an error is the same error. -/
namespace Stg

open Relational (Lifting)

variable {π : Equiv.Perm Id} {graph graph' : Graph} {inside : Id → Prop} {options : CompareOptions}
  {fuel : Nat}

section Equals

variable {m m' : Type → Type} [Monad m] [Monad m'] [MonadExceptOf Error m] [MonadExceptOf Error m']
  {L : Lifting Error m m'} {h : Handlers m} {h' : Handlers m'}

/-- What the methods call does the same. -/
structure Handlers.Move (L : Lifting Error m m') (π : Equiv.Perm Id) (inside : Id → Prop)
    (h : Handlers m) (h' : Handlers m') : Prop where
  compare : ∀ node1 node2, inside node1 → inside node2 →
    L.rel (fun answer answer' => answer' = moveAnswer π answer) (h.compare node1 node2)
      (h'.compare (π node1) (π node2))
  removed : ∀ node, inside node →
    L.rel (fun c c' => c' = Comparison.move π c) (h.removed node) (h'.removed (π node))
  added : ∀ node, inside node →
    L.rel (fun c c' => c' = Comparison.move π c) (h.added node) (h'.added (π node))

/-- The result is the same, with the comparisons under the other ids. -/
abbrev ResultMoves (π : Equiv.Perm Id) (result result' : Result) : Prop := result' = result.move π

theorem ofExcept_along {α α' : Type} {R : α → α' → Prop} {call : Except Error α}
    {call' : Except Error α'} (along : Alongside R call call') :
    L.rel R (ofExcept call : m α) (ofExcept call' : m' α') := by
  cases call <;> cases call'
  · cases (show _ = _ from along)
    exact L.throw _
  · exact along.elim
  · exact along.elim
  · exact L.pure along

theorem ofExcept_same {α : Type} {call call' : Except Error α} (same : call' = call) :
    L.rel (fun value value' => value' = value) (ofExcept call : m α) (ofExcept call' : m' α) :=
  ofExcept_along (.of_eq same)

theorem deref_move {nodes : List Id} (within : ∀ id ∈ nodes, inside id) (i : Option Nat) :
    L.rel (Moves π inside) (deref (i.bind (nodes[·]?)) : m Id)
      (deref (i.bind ((nodes.map π)[·]?)) : m' Id) := by
  have same : (i.bind ((nodes.map π)[·]?)) = (i.bind (nodes[·]?)).map π := by
    cases i with
    | none => rfl
    | some i => exact List.getElem?_map
  rw [same]
  cases held : i.bind (nodes[·]?) with
  | none => exact L.throw _
  | some id =>
    obtain ⟨i, rfl, at_⟩ := Option.bind_eq_some_iff.mp held
    exact L.pure ⟨within id (List.mem_of_getElem? at_), rfl⟩

theorem deref_map {α α' : Type} {g : α → α'} (held : Option α) :
    L.rel (fun value value' => held = some value ∧ value' = g value) (deref held : m α)
      (deref (held.map g) : m' α') := by
  cases held with
  | none => exact L.throw _
  | some value => exact L.pure ⟨rfl, rfl⟩

theorem deref_same {α : Type} (held : Option α) :
    L.rel (fun value value' => value' = value) (deref held : m α) (deref held : m' α) := by
  cases held with
  | none => exact L.throw _
  | some value => exact L.pure rfl

variable (moves : Handlers.Move L π inside h h')

include moves

/-- Where a comparison is made and its answer is recorded under an edge. -/
theorem compare_edge {node1 node2 : Id} (within1 : inside node1) (within2 : inside node2)
    (text : String) {result result' : Result} (same : ResultMoves π result result') :
    L.rel (ResultMoves π)
      (do
        let answer ← h.compare node1 node2
        pure (result.maybeAddEdgeDiff text answer))
      (do
        let answer ← h'.compare (π node1) (π node2)
        pure (result'.maybeAddEdgeDiff text answer)) := by
  subst same
  refine L.bind (moves.compare node1 node2 within1 within2) ?_
  rintro answer _ rfl
  exact L.pure (Result.move_maybeAddEdgeDiff π result text answer).symm

theorem removed_edge {node : Id} (within : inside node) (text : String) {result result' : Result}
    (same : ResultMoves π result result') :
    L.rel (ResultMoves π)
      (do
        let comparison ← h.removed node
        pure (result.addEdgeDiff text comparison))
      (do
        let comparison ← h'.removed (π node)
        pure (result'.addEdgeDiff text comparison)) := by
  subst same
  refine L.bind (moves.removed node within) ?_
  rintro comparison _ rfl
  exact L.pure (Result.move_addEdgeDiff π result text comparison).symm

theorem added_edge {node : Id} (within : inside node) (text : String) {result result' : Result}
    (same : ResultMoves π result result') :
    L.rel (ResultMoves π)
      (do
        let comparison ← h.added node
        pure (result.addEdgeDiff text comparison))
      (do
        let comparison ← h'.added (π node)
        pure (result'.addEdgeDiff text comparison)) := by
  subst same
  refine L.bind (moves.added node within) ?_
  rintro comparison _ rfl
  exact L.pure (Result.move_addEdgeDiff π result text comparison).symm

theorem compareNodesPair_move {nodes1 nodes2 : List Id} (within1 : ∀ id ∈ nodes1, inside id)
    (within2 : ∀ id ∈ nodes2, inside id) (pair : Option Nat × Option Nat) {result result' : Result}
    (same : ResultMoves π result result') :
    L.rel (ResultMoves π) (compareNodesPair h nodes1 nodes2 result pair)
      (compareNodesPair h' (nodes1.map π) (nodes2.map π) result' pair) := by
  rcases pair with ⟨_ | index1, _ | index2⟩
  · refine L.bind (deref_move within1 none) ?_
    rintro node1 _ ⟨within, rfl⟩
    refine L.bind (deref_move within2 none) ?_
    rintro node2 _ ⟨within', rfl⟩
    exact compare_edge moves within within' "" same
  · refine L.bind (deref_move within2 (some index2)) ?_
    rintro node2 _ ⟨within, rfl⟩
    exact added_edge moves within "" same
  · refine L.bind (deref_move within1 (some index1)) ?_
    rintro node1 _ ⟨within, rfl⟩
    exact removed_edge moves within "" same
  · refine L.bind (deref_move within1 (some index1)) ?_
    rintro node1 _ ⟨within, rfl⟩
    refine L.bind (deref_move within2 (some index2)) ?_
    rintro node2 _ ⟨within', rfl⟩
    exact compare_edge moves within within' "" same

theorem compareNodes_move (moved : graph.Moved graph' π inside) {nodes1 nodes2 : List Id}
    (within1 : ∀ id ∈ nodes1, inside id) (within2 : ∀ id ∈ nodes2, inside id) (reordered : Bool)
    {result result' : Result} (same : ResultMoves π result result') :
    L.rel (ResultMoves π) (compareNodes h graph fuel result nodes1 nodes2 reordered)
      (compareNodes h' graph' fuel result' (nodes1.map π) (nodes2.map π) reordered) := by
  refine L.bind (ofExcept_same (moved.matchingKeys fuel within1)) ?_
  rintro _ keys1 rfl
  refine L.bind (ofExcept_same (moved.matchingKeys fuel within2)) ?_
  rintro _ keys2 rfl
  refine L.bind (ofExcept_same rfl) ?_
  rintro _ pairs rfl
  refine Lifting.foldlM (R := Eq) (List.forall₂_refl pairs) ?_ same
  rintro result result' pair _ same rfl
  exact compareNodesPair_move moves within1 within2 pair same

/- The methods, one by one. -/

theorem PointerReference.equals_move {self other : PointerReference}
    (within1 : inside self.pointeeTypeId) (within2 : inside other.pointeeTypeId) :
    L.rel (ResultMoves π) (self.equals h other)
      (PointerReference.equals h' { self with pointeeTypeId := π self.pointeeTypeId }
        { other with pointeeTypeId := π other.pointeeTypeId }) := by
  unfold PointerReference.equals
  dsimp only
  split
  · exact L.pure rfl
  · exact compare_edge moves within1 within2 _ rfl

theorem ArrayNode.equals_move {self other : ArrayNode} (within1 : inside self.elementTypeId)
    (within2 : inside other.elementTypeId) :
    L.rel (ResultMoves π) (self.equals h other)
      (ArrayNode.equals h' { self with elementTypeId := π self.elementTypeId }
        { other with elementTypeId := π other.elementTypeId }) :=
  compare_edge moves within1 within2 _ (by simp [ResultMoves])

theorem BaseClass.equals_move {self other : BaseClass} (within1 : inside self.typeId)
    (within2 : inside other.typeId) :
    L.rel (ResultMoves π) (self.equals h other)
      (BaseClass.equals h' { self with typeId := π self.typeId }
        { other with typeId := π other.typeId }) :=
  compare_edge moves within1 within2 _ (by simp [ResultMoves])

theorem Member.equals_move {self other : Member} (within1 : inside self.typeId)
    (within2 : inside other.typeId) :
    L.rel (ResultMoves π) (self.equals h other)
      (Member.equals h' { self with typeId := π self.typeId }
        { other with typeId := π other.typeId }) :=
  compare_edge moves within1 within2 _ (by simp [ResultMoves])

theorem Method.equals_move {self other : Method} (within1 : inside self.typeId)
    (within2 : inside other.typeId) :
    L.rel (ResultMoves π) (self.equals h other)
      (Method.equals h' { self with typeId := π self.typeId }
        { other with typeId := π other.typeId }) :=
  compare_edge moves within1 within2 _ (by simp [ResultMoves])

omit moves in
/-- There are no comparisons in the result so far. -/
theorem compareDefined_move (defined1 defined2 holdsChanges ignoreDiff : Bool) :
    (compareDefined defined1 defined2 { diff := { holdsChanges } } ignoreDiff).2.move π =
      (compareDefined defined1 defined2 { diff := { holdsChanges } } ignoreDiff).2 := by
  unfold compareDefined
  split
  · rfl
  · split
    · exact Result.move_addNodeDiff π _ _
    · rfl

theorem StructUnion.equals_move (moved : graph.Moved graph' π inside) {self other : StructUnion}
    (within1 : ∀ id ∈ (Node.structUnion self).references, inside id)
    (within2 : ∀ id ∈ (Node.structUnion other).references, inside id) :
    L.rel (ResultMoves π) (self.equals h graph options fuel other)
      (StructUnion.equals h' graph' options fuel
        { self with definition := self.definition.map (·.rename π) }
        { other with definition := other.definition.map (·.rename π) }) := by
  unfold StructUnion.equals
  dsimp only
  split
  · exact L.pure rfl
  · rw [Option.isSome_map, Option.isSome_map]
    have fixed := @compareDefined_move π self.definition.isSome other.definition.isSome
      (decide (self.name ≠ "")) options.ignoreTypeDeclarationStatusChanges
    generalize compareDefined self.definition.isSome other.definition.isSome
      { diff := { holdsChanges := decide (self.name ≠ "") } }
      options.ignoreTypeDeclarationStatusChanges = defined at fixed ⊢
    obtain ⟨_ | _, result⟩ := defined
    · exact L.pure fixed.symm
    · refine L.bind (deref_map self.definition) ?_
      rintro definition1 _ ⟨held1, rfl⟩
      refine L.bind (deref_map other.definition) ?_
      rintro definition2 _ ⟨held2, rfl⟩
      simp only [Node.references, held1, held2, List.forall_mem_append] at within1 within2
      refine L.bind (compareNodes_move moves moved within1.1.1 within2.1.1 true ?_) ?_
      · simp only [ResultMoves, Result.move_maybeAddNodeDiff, StructUnion.Definition.rename]
        rw [show result.move π = result from fixed]
      intro result result' same
      refine L.bind (compareNodes_move moves moved within1.1.2 within2.1.2 false same) ?_
      intro result result' same
      exact compareNodes_move moves moved within1.2 within2.2 true same

omit moves in
theorem compareEnumeratorsPair_move (enums1 enums2 : List (String × Int64))
    (pair : Option Nat × Option Nat) {result result' : Result}
    (same : ResultMoves π result result') :
    L.rel (ResultMoves π) (compareEnumeratorsPair enums1 enums2 result pair)
      (compareEnumeratorsPair enums1 enums2 result' pair) := by
  subst same
  rcases pair with ⟨_ | index1, _ | index2⟩
  · exact L.bind (R := fun _ _ => False) (L.throw _) fun _ _ absurd => absurd.elim
  · refine L.bind (deref_same _) ?_
    rintro _ enum2 rfl
    exact L.pure (Result.move_addNodeDiff π result _).symm
  · refine L.bind (deref_same _) ?_
    rintro _ enum1 rfl
    exact L.pure (Result.move_addNodeDiff π result _).symm
  · refine L.bind (deref_same _) ?_
    rintro _ enum1 rfl
    refine L.bind (deref_same _) ?_
    rintro _ enum2 rfl
    exact L.pure (Result.move_maybeAddNodeDiff π result _ _ _).symm

omit moves in
theorem Enumeration.equals_move (self other : Enumeration) :
    L.rel (ResultMoves π) (self.equals options other : m Result)
      (self.equals options other : m' Result) := by
  unfold Enumeration.equals
  dsimp only
  split
  · exact L.pure rfl
  · have fixed := @compareDefined_move π self.definition.isSome other.definition.isSome
      (decide (self.name ≠ "")) options.ignoreTypeDeclarationStatusChanges
    generalize compareDefined self.definition.isSome other.definition.isSome
      { diff := { holdsChanges := decide (self.name ≠ "") } }
      options.ignoreTypeDeclarationStatusChanges = defined at fixed ⊢
    obtain ⟨_ | _, result⟩ := defined
    · exact L.pure fixed.symm
    · refine L.bind (deref_same self.definition) ?_
      rintro _ definition1 rfl
      refine L.bind (deref_same other.definition) ?_
      rintro _ definition2 rfl
      refine L.bind (ofExcept_same rfl) ?_
      rintro _ pairs rfl
      refine Lifting.foldlM (R := Eq) (List.forall₂_refl pairs) ?_ ?_
      · rintro result result' pair _ same rfl
        exact compareEnumeratorsPair_move _ _ pair same
      · simp only [ResultMoves, Result.move_maybeAddNodeDiff]
        rw [show result.move π = result from fixed]

omit moves in
/-- A loop over parts and their positions, which are elsewhere in the other graph. -/
theorem foldlM_zipIdx_move {α : Type} {g : α → α} {items : List α} {start : Nat}
    {step : Result → α × Nat → m Result} {step' : Result → α × Nat → m' Result}
    (steps : ∀ result result' item i, ResultMoves π result result' → item ∈ items →
      L.rel (ResultMoves π) (step result (item, i)) (step' result' (g item, i)))
    {result result' : Result} (same : ResultMoves π result result') :
    L.rel (ResultMoves π) ((items.zipIdx start).foldlM step result)
      (((items.map g).zipIdx start).foldlM step' result') := by
  rw [List.zipIdx_map]
  refine Lifting.foldlM (R := fun item item' => item.1 ∈ items ∧ item' = Prod.map g id item)
    (forall₂_map fun item among => ⟨List.fst_mem_of_mem_zipIdx among, rfl⟩) ?_ same
  rintro result result' ⟨item, i⟩ _ same ⟨among, rfl⟩
  exact steps result result' item i same among

def Parameter.move (π : Equiv.Perm Id) (p : Parameter) : Parameter := { p with typeId := π p.typeId }

theorem FunctionNode.equals_move {self other : FunctionNode}
    (within1 : ∀ id ∈ (Node.function self).references, inside id)
    (within2 : ∀ id ∈ (Node.function other).references, inside id) :
    L.rel (ResultMoves π) (self.equals h other)
      (FunctionNode.equals h' ⟨π self.returnTypeId, self.parameters.map (Parameter.move π)⟩
        ⟨π other.returnTypeId, other.parameters.map (Parameter.move π)⟩) := by
  have parameters1 : ∀ p ∈ self.parameters, inside p.typeId := fun p among =>
    within1 _ (List.mem_cons_of_mem _ (List.mem_map_of_mem among))
  have parameters2 : ∀ p ∈ other.parameters, inside p.typeId := fun p among =>
    within2 _ (List.mem_cons_of_mem _ (List.mem_map_of_mem among))
  unfold FunctionNode.equals
  dsimp only
  simp only [List.length_map]
  refine L.bind (moves.compare _ _ (within1 _ List.mem_cons_self) (within2 _ List.mem_cons_self)) ?_
  rintro answer _ rfl
  rw [List.zip_map]
  refine L.bind (R := ResultMoves π) (foldlM_zipIdx_move ?_ (by simp [ResultMoves])) ?_
  · rintro result result' ⟨p1, p2⟩ i same among
    obtain ⟨among1, among2⟩ := List.of_mem_zip among
    exact compare_edge moves (parameters1 p1 among1) (parameters2 p2 among2) _ same
  · intro result result' same
    by_cases added : self.parameters.length < other.parameters.length
    · simp only [added, decide_true, ↓reduceIte]
      rw [← List.map_drop]
      refine foldlM_zipIdx_move ?_ same
      intro result result' p i same among
      exact added_edge moves (parameters2 p (List.mem_of_mem_drop among)) _ same
    · simp only [added, decide_false, Bool.false_eq_true, ↓reduceIte]
      rw [← List.map_drop]
      refine foldlM_zipIdx_move ?_ same
      intro result result' p i same among
      exact removed_edge moves (parameters1 p (List.mem_of_mem_drop among)) _ same

theorem ElfSymbol.equals_move {self other : ElfSymbol}
    (within1 : ∀ id ∈ self.typeId.toList, inside id)
    (within2 : ∀ id ∈ other.typeId.toList, inside id) :
    L.rel (ResultMoves π) (self.equals h options other)
      (ElfSymbol.equals h' options { self with typeId := self.typeId.map π }
        { other with typeId := other.typeId.map π }) := by
  have versions : ∀ result, (compareVersions result self.versionInfo other.versionInfo).move π =
      compareVersions (result.move π) self.versionInfo other.versionInfo := by
    intro result
    cases self.versionInfo <;> cases other.versionInfo <;> simp [compareVersions]
  unfold ElfSymbol.equals
  dsimp only
  cases type1 : self.typeId with
  | none =>
    cases type2 : other.typeId with
    | none => exact L.pure (by simp [ResultMoves, versions])
    | some id2 =>
      rw [type2] at within2
      simp only [Option.map_none, Option.map_some]
      split
      · exact L.pure (by simp [ResultMoves, versions])
      · exact added_edge moves (within2 id2 (by simp)) "" (by simp [ResultMoves, versions])
  | some id1 =>
    rw [type1] at within1
    cases type2 : other.typeId with
    | none =>
      simp only [Option.map_none, Option.map_some]
      split
      · exact L.pure (by simp [ResultMoves, versions])
      · exact removed_edge moves (within1 id1 (by simp)) "" (by simp [ResultMoves, versions])
    | some id2 =>
      rw [type2] at within2
      exact compare_edge moves (within1 id1 (by simp)) (within2 id2 (by simp)) ""
        (by simp [ResultMoves, versions])

omit moves in
theorem Integer.equals_move (self other : Integer) :
    L.rel (ResultMoves π) (self.equals other : m Result) (self.equals other : m' Result) := by
  unfold Integer.equals
  dsimp only
  split
  · exact L.pure (by simp [ResultMoves])
  · exact L.pure (by simp [ResultMoves])

omit moves in
theorem symbols_move {symbols : Symbols}
    (within : ∀ id ∈ (Node.symbols symbols).references, inside id) :
    List.Forall₂ (fun symbol symbol' => inside symbol.2 ∧ symbol' = (symbol.1, π symbol.2))
      symbols.symbols (symbols.rename π).symbols :=
  forall₂_map fun _ among => ⟨within _ (List.mem_map_of_mem among), rfl⟩

theorem Symbols.equals_move {self other : Symbols}
    (within1 : ∀ id ∈ (Node.symbols self).references, inside id)
    (within2 : ∀ id ∈ (Node.symbols other).references, inside id) :
    L.rel (ResultMoves π) (self.equals h other)
      (Symbols.equals h' (self.rename π) (other.rename π)) := by
  let R (symbol symbol' : SymbolKey × Id) : Prop := inside symbol.2 ∧
    symbol' = (symbol.1, π symbol.2)
  let both (item item' : Option (SymbolKey × Id) × Option (SymbolKey × Id)) : Prop :=
    Option.Rel R item.1 item'.1 ∧ Option.Rel R item.2 item'.2
  have keys : ∀ symbol symbol', R symbol symbol' → symbol'.1 = symbol.1 := by
    rintro symbol _ ⟨_, rfl⟩
    rfl
  have swept : List.Forall₂ both (Sweep.sweep (·.1) (·.1) self.symbols other.symbols)
      (Sweep.sweep (·.1) (·.1) (self.rename π).symbols (other.rename π).symbols) :=
    Sweep.sweep_related keys keys (symbols_move within1) (symbols_move within2)
  have removed : ∀ ⦃item item'⦄, both item item' →
      Option.Rel R (removedSymbol item) (removedSymbol item') := by
    rintro ⟨_, _⟩ ⟨_, _⟩ ⟨first | _, second | _⟩
    · exact .none
    · exact .some first
    · exact .none
    · exact .none
  have added : ∀ ⦃item item'⦄, both item item' →
      Option.Rel R (addedSymbol item) (addedSymbol item') := by
    rintro ⟨_, _⟩ ⟨_, _⟩ ⟨first | _, second | _⟩
    · exact .none
    · exact .none
    · exact .some second
    · exact .none
  have inBoth : ∀ ⦃item item'⦄, both item item' →
      Option.Rel (fun pair pair' => R pair.1 pair'.1 ∧ R pair.2 pair'.2) (symbolsInBoth item)
        (symbolsInBoth item') := by
    rintro ⟨_, _⟩ ⟨_, _⟩ ⟨first | _, second | _⟩
    · exact .some ⟨first, second⟩
    · exact .none
    · exact .none
    · exact .none
  unfold Symbols.equals
  refine L.bind (Lifting.foldlM (T := ResultMoves π) (List.rel_filterMap removed swept) ?_ rfl) ?_
  · rintro result result' symbol _ same ⟨within, rfl⟩
    exact removed_edge moves within _ same
  intro result result' same
  refine L.bind (Lifting.foldlM (T := ResultMoves π) (List.rel_filterMap added swept) ?_ same) ?_
  · rintro result result' symbol _ same ⟨within, rfl⟩
    exact added_edge moves within _ same
  intro result result' same
  refine Lifting.foldlM (T := ResultMoves π) (List.rel_filterMap inBoth swept) ?_ same
  rintro result result' ⟨symbol1, symbol2⟩ ⟨_, _⟩ same ⟨⟨within1, rfl⟩, ⟨within2, rfl⟩⟩
  exact compare_edge moves within1 within2 _ same

omit moves in
theorem Node.kind_rename (f : Id → Id) (node : Node) : (node.rename f).kind = node.kind := by
  cases node <;> rfl

/-- Dynamic dispatch to nodes under other ids. -/
theorem Node.equals_move (moved : graph.Moved graph' π inside) {self other : Node}
    (within1 : ∀ id ∈ self.references, inside id) (within2 : ∀ id ∈ other.references, inside id) :
    L.rel (ResultMoves π) (self.equals h graph options fuel other)
      (Node.equals h' graph' options fuel (self.rename π) (other.rename π)) := by
  cases self <;> cases other
  case pointerReference.pointerReference =>
    exact PointerReference.equals_move moves (within1 _ (by simp [Node.references]))
      (within2 _ (by simp [Node.references]))
  case integer.integer self other => exact Integer.equals_move self other
  case array.array =>
    exact ArrayNode.equals_move moves (within1 _ (by simp [Node.references]))
      (within2 _ (by simp [Node.references]))
  case baseClass.baseClass =>
    exact BaseClass.equals_move moves (within1 _ (by simp [Node.references]))
      (within2 _ (by simp [Node.references]))
  case member.member =>
    exact Member.equals_move moves (within1 _ (by simp [Node.references]))
      (within2 _ (by simp [Node.references]))
  case method.method =>
    exact Method.equals_move moves (within1 _ (by simp [Node.references]))
      (within2 _ (by simp [Node.references]))
  case structUnion.structUnion => exact StructUnion.equals_move moves moved within1 within2
  case enumeration.enumeration self other => exact Enumeration.equals_move self other
  case function.function => exact FunctionNode.equals_move moves within1 within2
  case elfSymbol.elfSymbol => exact ElfSymbol.equals_move moves within1 within2
  case symbols.symbols => exact Symbols.equals_move moves within1 within2
  case void.void => exact L.pure rfl
  case variadic.variadic => exact L.pure rfl
  all_goals exact L.throw _

omit moves in
theorem compareQualifiers_move (qualifiers1 qualifiers2 : Qualifiers) :
    (compareQualifiers qualifiers1 qualifiers2 {}).move π = compareQualifiers qualifiers1
      qualifiers2 {} := by
  unfold compareQualifiers
  refine List.foldlRecOn (motive := fun result => Result.move π result = result) _ _ rfl ?_
  rintro result fixed ⟨_ | _, _ | _⟩ _
  · exact fixed
  · rw [Result.move_addNodeDiff, fixed]
  · rw [Result.move_addNodeDiff, fixed]
  · exact fixed

/-- The part of `Compare` between opening and closing. -/
theorem examine_move (moved : graph.Moved graph' π inside) {node1 node2 : Id}
    (within1 : inside node1) (within2 : inside node2) :
    L.rel (ResultMoves π) (examine h graph options fuel node1 node2)
      (examine h' graph' options fuel (π node1) (π node2)) := by
  unfold examine
  refine L.bind (ofExcept_along (moved.resolveQualifiers fuel within1 ∅)) ?_
  rintro ⟨unqualified1, qualifiers1⟩ _ ⟨within1, rfl⟩
  refine L.bind (ofExcept_along (moved.resolveQualifiers fuel within2 ∅)) ?_
  rintro ⟨unqualified2, qualifiers2⟩ _ ⟨within2, rfl⟩
  dsimp only at within1 within2 ⊢
  split
  · exact compare_edge moves within1 within2 _ (compareQualifiers_move _ _).symm
  refine L.bind (ofExcept_along (moved.resolveTypedefs fuel within1 [])) ?_
  rintro ⟨resolved1, typedefs1⟩ _ ⟨inside1, rfl⟩
  refine L.bind (ofExcept_along (moved.resolveTypedefs fuel within2 [])) ?_
  rintro ⟨resolved2, typedefs2⟩ _ ⟨inside2, rfl⟩
  dsimp only at inside1 inside2 ⊢
  simp only [ne_eq, π.injective.eq_iff]
  split
  · exact compare_edge moves inside1 inside2 _ rfl
  refine L.bind (ofExcept_along (moved.got within1)) ?_
  rintro type1 _ ⟨rfl, references1⟩
  refine L.bind (ofExcept_along (moved.got within2)) ?_
  rintro type2 _ ⟨rfl, references2⟩
  rw [Node.kind_rename, Node.kind_rename]
  split
  · exact L.pure rfl
  · exact Node.equals_move moves moved references1 references2

end Equals

section Compare

/-- The stores hold the same under the other ids. -/
abbrev StateMoves (π : Equiv.Perm Id) (s s' : State) : Prop := s' = s.move π

/-- Computations over a state that do the same and end in the same way. -/
abbrev comparing (π : Equiv.Perm Id) : Lifting Error CompareM CompareM :=
  (Lifting.exactly Error).state (StateMoves π)

theorem removed_move (node : Id) :
    (comparing π).rel (fun c c' => c' = Comparison.move π c) (removed node) (removed (π node)) := by
  refine (comparing π).bind (Lifting.modify ?_) fun _ _ _ => (comparing π).pure rfl
  rintro s _ rfl
  simp [StateMoves, State.move, Outcomes.move]

theorem added_move (node : Id) :
    (comparing π).rel (fun c c' => c' = Comparison.move π c) (added node) (added (π node)) := by
  refine (comparing π).bind (Lifting.modify ?_) fun _ _ _ => (comparing π).pure rfl
  rintro s _ rfl
  simp [StateMoves, State.move, Outcomes.move]

theorem settle_move (equals : Bool) (c : Comparison) :
    (comparing π).rel (fun _ _ => True) (settle equals c)
      (settle equals (Comparison.move π c)) := by
  refine (comparing π).bind (Lifting.modify ?_) fun _ _ _ => ?_
  · rintro s _ rfl
    simp [StateMoves, State.move]
  refine (comparing π).bind Lifting.get ?_
  rintro s _ rfl
  have provisional : (s.move π).provisional.lookup (Comparison.move π c) =
      (s.provisional.lookup c).map (Diff.move π) := Relabel.lookup_relabel _ _ _ _
  rw [provisional]
  cases s.provisional.lookup c with
  | none => exact (comparing π).throw _
  | some diff =>
    refine Lifting.modify ?_
    rintro s _ rfl
    cases equals <;> simp [StateMoves, State.move, Outcomes.move]

theorem settleAll_move (equals : Bool) (comparisons : List Comparison) :
    (comparing π).rel (fun _ _ => True) (comparisons.forM (settle equals))
      ((comparisons.map (Comparison.move π)).forM (settle equals)) := by
  induction comparisons with
  | nil => exact (comparing π).pure trivial
  | cons c comparisons ih => exact (comparing π).bind (settle_move equals c) fun _ _ _ => ih

theorem conclude_move (c : Comparison) (handle : Nat) (result : Result) :
    (comparing π).rel (fun answer answer' => answer' = moveAnswer π answer)
      (conclude c handle result)
      (conclude (Comparison.move π c) handle (result.move π)) := by
  obtain ⟨equals, diff⟩ := result
  refine (comparing π).bind (Lifting.modify ?_) fun _ _ _ => ?_
  · rintro s _ rfl
    simp [StateMoves, State.move, Outcomes.move, Result.move]
  refine (comparing π).bind Lifting.get ?_
  rintro s _ rfl
  refine (comparing π).bind (ofExcept_along (Lifting.exactly_map.mpr
    (Scc.closeNode_move (Comparison.move π) s.scc handle))) ?_
  rintro ⟨comparisons, scc⟩ _ rfl
  refine (comparing π).bind (Lifting.modify ?_) fun _ _ _ => ?_
  · rintro s _ rfl
    rfl
  rw [List.isEmpty_map]
  split
  · exact (comparing π).pure rfl
  · refine (comparing π).bind (settleAll_move equals comparisons) fun _ _ _ => ?_
    cases equals
    · exact (comparing π).pure rfl
    · exact (comparing π).pure rfl

theorem compareBody_move {examination examination' : Id → Id → CompareM Result} {node1 node2 : Id}
    (same : (comparing π).rel (ResultMoves π) (examination node1 node2)
      (examination' (π node1) (π node2))) :
    (comparing π).rel (fun answer answer' => answer' = moveAnswer π answer)
      (compareBody examination node1 node2) (compareBody examination' (π node1) (π node2)) := by
  refine (comparing π).bind Lifting.get ?_
  rintro s _ rfl
  have known : (s.move π).known.lookup (some (π node1), some (π node2)) =
      s.known.lookup (some node1, some node2) := by
    have found := Relabel.lookup_relabel (Comparison.move π) id s.known (some node1, some node2)
    rwa [Option.map_id] at found
  rw [known]
  cases s.known.lookup (some node1, some node2) with
  | some verdict =>
    cases verdict
    · exact (comparing π).pure rfl
    · exact (comparing π).pure rfl
  | none =>
    refine (comparing π).bind Lifting.get ?_
    rintro s _ rfl
    refine (comparing π).bind (ofExcept_along (Lifting.exactly_map.mpr
      (Scc.openNode_move (Comparison.move π) s.scc (some node1, some node2)))) ?_
    rintro ⟨handle, scc⟩ _ rfl
    refine (comparing π).bind (Lifting.modify ?_) fun _ _ _ => ?_
    · rintro s _ rfl
      rfl
    cases handle with
    | none => exact (comparing π).pure rfl
    | some handle =>
      refine (comparing π).bind same ?_
      rintro result _ rfl
      exact conclude_move _ handle result

/-- `Compare` depends on what the graph says and not on the ids: in a graph that says the
same under other ids it does the same, from any state, and fails in the same way. -/
theorem compare_move (moved : graph.Moved graph' π inside) (options : CompareOptions) (fuel : Nat)
    {node1 node2 : Id} (within1 : inside node1) (within2 : inside node2) :
    (comparing π).rel (fun answer answer' => answer' = moveAnswer π answer)
      (compare graph options fuel node1 node2)
        (compare graph' options fuel (π node1) (π node2)) := by
  induction fuel generalizing node1 node2 with
  | zero => exact (comparing π).throw _
  | succ fuel ih =>
    have moves : Handlers.Move (comparing π) π inside ⟨compare graph options fuel, removed, added⟩
        ⟨compare graph' options fuel, removed, added⟩ :=
      ⟨fun _ _ => ih, fun node _ => removed_move node, fun node _ => added_move node⟩
    exact compareBody_move (examine_move moves moved within1 within2)

theorem runCompare_move (moved : graph.Moved graph' π inside) {node1 node2 : Id}
    (within1 : inside node1)
    (within2 : inside node2) (s : State) :
    runCompare graph' options fuel (s.move π) (π node1) (π node2) =
      (runCompare graph options fuel s node1 node2).map
        fun out => (moveAnswer π out.1, out.2.move π) := by
  have same := compare_move moved options fuel within1 within2 s (s.move π) rfl
  rw [← Lifting.exactly_map]
  refine (Lifting.exactly Error).imp same ?_
  rintro ⟨answer, s⟩ ⟨_, _⟩ ⟨rfl, rfl⟩
  rfl

end Compare

end Stg
