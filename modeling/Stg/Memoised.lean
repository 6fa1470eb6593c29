import Stg.Named

set_option autoImplicit false

/- Naming with a cache agrees with naming without one, wherever naming reaches no cycle. -/
namespace Stg

open Relation (ReflTransGen TransGen)

/-- The naming recursion reaches no cycle. -/
def Graph.NamesFinitely (graph : Graph) (id : Id) : Prop :=
  ∀ other, ReflTransGen graph.NamedBy id other → ¬ TransGen graph.NamedBy other other

/-- The recursion of `MakeDescription` without the cache. -/
def plainDescription (graph : Graph) : Nat → Id → NameM Name
  | 0, _ => throw .outOfFuel
  | fuel + 1, id => do
    let node ← ofExcept (graph.get id)
    node.makeDescription graph fuel (plainDescription graph fuel)

/-- With enough fuel the call returns the value and leaves the cache alone. -/
def Answering {α : Type} (call : Nat → NameM α) (value : α) : Prop :=
  ∃ enough, ∀ fuel, enough ≤ fuel → ∀ names, (call fuel).run names = .ok (value, names)

/-- The name that is rendered recursively. -/
def Rendered (graph : Graph) (id : Id) (name : Name) : Prop :=
  Answering (fun fuel => plainDescription graph fuel id) name

variable {graph : Graph} {fuel : Nat}

theorem Graph.NamesFinitely.part {id part : Id} (finite : graph.NamesFinitely id)
    (path : ReflTransGen graph.NamedBy id part) : graph.NamesFinitely part :=
  fun other rest => finite other (path.trans rest)

section Agreement

variable {α β : Type}

theorem Answering.pure (value : α) : Answering (fun _ => Pure.pure value) value :=
  ⟨0, fun _ _ _ => rfl⟩

theorem Answering.bind {call : Nat → NameM α} {rest : Nat → α → NameM β} {value : α} {value' : β}
    (first : Answering call value) (second : Answering (fun fuel => rest fuel value) value') :
    Answering (fun fuel => call fuel >>= rest fuel) value' := by
  obtain ⟨enough, returns⟩ := first
  obtain ⟨enough', returns'⟩ := second
  refine ⟨max enough enough', fun fuel more names => ?_⟩
  rw [StateT.run_bind, returns fuel (le_trans (le_max_left _ _) more) names]
  exact returns' fuel (le_trans (le_max_right _ _) more) names

/-- Where the call returns it keeps the invariant, and under the condition the plain call
returns the same. -/
def Agrees (Inv : NameCache → Prop) (finite : Prop) (call : NameM α) (plain : Nat → NameM α) :
    Prop :=
  ∀ names value names', Inv names → call.run names = .ok (value, names') →
    Inv names' ∧ (finite → Answering plain value)

variable {Inv : NameCache → Prop} {finite : Prop}

theorem Agrees.pure (value : α) :
    Agrees Inv finite (Pure.pure value) fun _ => Pure.pure value := by
  intro names value' names' inv ran
  cases ran
  exact ⟨inv, fun _ => .pure value⟩

/-- The second call need only agree on what the first one returns. -/
theorem Agrees.bind_of {call : NameM α} {plain : Nat → NameM α} {rest : α → NameM β}
    {plainRest : Nat → α → NameM β} (first : Agrees Inv finite call plain)
    (second : ∀ value, (∃ names names', call.run names = .ok (value, names')) →
      Agrees Inv finite (rest value) fun fuel => plainRest fuel value) :
    Agrees Inv finite (call >>= rest) fun fuel => plain fuel >>= plainRest fuel := by
  intro names value' names'' inv ran
  obtain ⟨⟨value, names'⟩, ran1, ran2⟩ := bind_eq_ok ran
  obtain ⟨inv', same⟩ := first names value names' inv ran1
  obtain ⟨inv'', same'⟩ := second value ⟨_, _, ran1⟩ names' value' names'' inv' ran2
  exact ⟨inv'', fun isFinite => (same isFinite).bind (same' isFinite)⟩

theorem Agrees.bind {call : NameM α} {plain : Nat → NameM α} {rest : α → NameM β}
    {plainRest : Nat → α → NameM β} (first : Agrees Inv finite call plain)
    (second : ∀ value, Agrees Inv finite (rest value) fun fuel => plainRest fuel value) :
    Agrees Inv finite (call >>= rest) fun fuel => plain fuel >>= plainRest fuel :=
  first.bind_of fun value _ => second value

/-- A walk that does not read the cache. -/
theorem Agrees.ofExcept {walk : Nat → Except Error α} {value : Except Error α}
    (grows : ∀ fuel', fuel ≤ fuel' → Yields value (walk fuel')) :
    Agrees Inv finite (Stg.ofExcept value : NameM α) fun fuel => Stg.ofExcept (walk fuel) := by
  intro names out names' inv ran
  cases held : value with
  | error reason =>
    rw [held] at ran
    cases ran
  | ok result =>
    rw [held] at ran
    cases ran
    refine ⟨inv, fun _ => ⟨fuel, fun fuel' more other => ?_⟩⟩
    change (Stg.ofExcept (walk fuel') : NameM α).run other = _
    rw [grows fuel' more _ held]
    rfl

variable {describe : Id → NameM Name} {plain : Nat → Id → NameM Name}

theorem describeAll_agrees (before after : String) {ids : List Id}
    (describes : ∀ part ∈ ids, Agrees Inv finite (describe part) fun fuel => plain fuel part) :
    Agrees Inv finite (describeAll describe before after ids) fun fuel =>
      describeAll (plain fuel) before after ids := by
  induction ids with
  | nil => exact .pure _
  | cons id ids ih =>
    refine (describes id (by simp)).bind fun name => ?_
    refine (ih fun part present => describes part (by simp [present])).bind fun rest => ?_
    exact .pure _

theorem describeParameters_agrees {ids : List Id}
    (describes : ∀ part ∈ ids, Agrees Inv finite (describe part) fun fuel => plain fuel part) :
    Agrees Inv finite (describeParameters describe ids) fun fuel =>
      describeParameters (plain fuel) ids := by
  cases ids with
  | nil => exact .pure _
  | cons first others =>
    refine (describes first (by simp)).bind fun name => ?_
    refine Agrees.bind (describeAll_agrees _ _ fun part present =>
      describes part (by simp [present])) fun rest => ?_
    exact .pure _

theorem StructUnion.describeBody_agrees {self : StructUnion}
    (describes : ∀ part ∈ (Node.structUnion self).parts,
      Agrees Inv finite (describe part) fun fuel => plain fuel part) :
    Agrees Inv finite (self.describeBody describe) fun fuel => self.describeBody (plain fuel) := by
  unfold StructUnion.describeBody
  by_cases named : self.name ≠ ""
  · simp only [if_pos named]
    exact .pure _
  · simp only [if_neg named]
    cases held : self.definition with
    | none => exact .pure _
    | some definition =>
      rw [Node.parts, if_neg named, held] at describes
      exact (describeAll_agrees _ _ describes).bind fun members => .pure _

/-- The name of a node is made in the same way of the names of its parts. -/
theorem Node.makeDescription_agrees {node : Node} {id : Id} (got : graph.get id = .ok node)
    (describes : ∀ part, TransGen graph.NamedBy id part →
      Agrees Inv finite (describe part) fun fuel => plain fuel part) :
    Agrees Inv finite (node.makeDescription graph fuel describe) fun fuel =>
      node.makeDescription graph fuel (plain fuel) := by
  have parts : ∀ part ∈ node.parts,
      Agrees Inv finite (describe part) fun fuel => plain fuel part :=
    fun part present => describes part (.single ⟨node, got, present⟩)
  cases node with
  | pointerReference node => exact (parts _ List.mem_cons_self).bind fun name => .pure _
  | array node => exact (parts _ List.mem_cons_self).bind fun name => .pure _
  | member node => exact (parts _ List.mem_cons_self).bind fun name => .pure _
  | structUnion node => exact (StructUnion.describeBody_agrees parts).bind fun body => .pure _
  | qualified node =>
    have walk : Agrees Inv finite
        (ofExcept (resolveQualifiers graph fuel node.qualifiedTypeId {node.qualifier}) : NameM _)
        fun fuel => ofExcept (resolveQualifiers graph fuel node.qualifiedTypeId {node.qualifier}) :=
      .ofExcept fun fuel' more => resolveQualifiers_yields more _ _
    refine walk.bind_of ?_
    rintro ⟨under, qualifiers⟩ ⟨names, names', ran⟩
    have found : resolveQualifiers graph fuel node.qualifiedTypeId {node.qualifier} =
        .ok (under, qualifiers) := by
      cases held : resolveQualifiers graph fuel node.qualifiedTypeId {node.qualifier} with
      | error reason =>
        rw [held] at ran
        cases ran
      | ok out =>
        rw [held] at ran
        cases ran
        rfl
    have first : graph.NamedBy id node.qualifiedTypeId := ⟨_, got, List.mem_cons_self⟩
    have reached := TransGen.head' first (resolveQualifiers_path found)
    refine (describes under reached).bind fun name => ?_
    have unchanged : ∀ fuel', fuel ≤ fuel' → Yields (name.qualify qualifiers)
        (name.qualify qualifiers) := fun _ _ => Yields.refl _
    exact Agrees.ofExcept unchanged
  | baseClass node =>
    have walk : Agrees Inv finite (ofExcept (matchingKey graph fuel node.typeId) : NameM String)
        fun fuel => ofExcept (matchingKey graph fuel node.typeId) :=
      .ofExcept fun fuel' more => matchingKey_yields more _
    exact walk.bind fun key => .pure _
  | function node =>
    have described : ∀ part ∈ node.parameters.map (·.typeId),
        Agrees Inv finite (describe part) fun fuel => plain fuel part :=
      fun part present => parts part (List.mem_append_left _ present)
    have parameters := describeParameters_agrees described
    have returned := parts node.returnTypeId (List.mem_append_right _ List.mem_cons_self)
    exact parameters.bind fun text => returned.bind fun name => .pure _
  | elfSymbol node =>
    cases held : node.typeId with
    | none =>
      simp only [Node.makeDescription, held]
      exact .pure _
    | some typeId =>
      simp only [Node.makeDescription, held]
      exact (parts typeId (by simp [Node.parts, held])).bind fun name => .pure _
  | _ => exact .pure _

end Agreement

section Cache

/-- Outside the nodes that are being named, the cached names of nodes that reach no cycle are
the rendered ones. -/
def RendersApart (graph : Graph) (being : List Id) (names : NameCache) : Prop :=
  ∀ id name, id ∉ being → graph.NamesFinitely id → names.lookup id = some name →
    Rendered graph id name

variable {being : List Id} {names : NameCache} {id : Id} {name : Name}

theorem RendersApart.opened (inv : RendersApart graph being names) (id : Id) :
    RendersApart graph (id :: being) (names.insert id blackHole) := by
  intro other name apart finite found
  rw [List.mem_cons, not_or] at apart
  rw [AList.lookup_insert_ne apart.1] at found
  exact inv other name apart.2 finite found

theorem RendersApart.closed (inv : RendersApart graph (id :: being) names)
    (rendered : graph.NamesFinitely id → Rendered graph id name) :
    RendersApart graph being (names.insert id name) := by
  intro other name' apart finite found
  by_cases same : other = id
  · subst same
    rw [AList.lookup_insert] at found
    cases found
    exact rendered finite
  · rw [AList.lookup_insert_ne same] at found
    refine inv other name' ?_ finite found
    rw [List.mem_cons, not_or]
    exact ⟨same, apart⟩

theorem getDescription_cached (held : names.lookup id = some name) :
    (getDescription graph (fuel + 1) id).run names = .ok (name, names) := by
  rw [getDescription, StateT.run_bind, StateT.run_get, pure_bind, held]
  rfl

theorem getDescription_new (absent : names.lookup id = none) :
    (getDescription graph (fuel + 1) id).run names = ((ofExcept (graph.get id) : NameM Node) >>=
      fun node => node.makeDescription graph fuel (getDescription graph fuel) >>= fun name =>
      (modify fun names => names.insert id name) >>= fun _ => pure name).run
        (names.insert id blackHole) := by
  rw [getDescription, StateT.run_bind, StateT.run_get, pure_bind, absent]
  rfl

theorem rendered_of_makes {node : Node} (got : graph.get id = .ok node)
    (makes : Answering (fun fuel => node.makeDescription graph fuel (plainDescription graph fuel))
      name) : Rendered graph id name := by
  obtain ⟨enough, returns⟩ := makes
  refine ⟨enough + 1, fun fuel more names => ?_⟩
  obtain ⟨fuel, rfl⟩ := Nat.exists_eq_add_of_le' (Nat.le_of_add_left_le more)
  change ((ofExcept (graph.get id) : NameM Node) >>= fun node =>
    node.makeDescription graph fuel (plainDescription graph fuel)).run names = _
  rw [got]
  exact returns fuel (by omega) names

/-- Naming keeps the cache right and returns the rendered name where it reaches no cycle. The
nodes that are being named all lead to the node. -/
theorem getDescription_agrees (being : List Id) (id : Id)
    (leads : ∀ other ∈ being, TransGen graph.NamedBy other id) :
    Agrees (RendersApart graph being) (graph.NamesFinitely id) (getDescription graph fuel id)
      fun fuel => plainDescription graph fuel id := by
  induction fuel generalizing being id with
  | zero =>
    intro names value names' _ ran
    cases ran
  | succ fuel ih =>
    intro names value names' inv ran
    cases held : names.lookup id with
    | some cached =>
      rw [getDescription_cached held] at ran
      cases ran
      refine ⟨inv, fun finite => inv id value ?_ finite held⟩
      intro among
      exact finite id .refl (leads id among)
    | none =>
      rw [getDescription_new held] at ran
      obtain ⟨⟨node, names2⟩, looked, ran⟩ := bind_eq_ok ran
      have got : graph.get id = .ok node ∧ names2 = names.insert id blackHole := by
        cases found : graph.get id with
        | error reason =>
          rw [found] at looked
          cases looked
        | ok other =>
          rw [found] at looked
          cases looked
          exact ⟨rfl, rfl⟩
      obtain ⟨⟨name, names3⟩, made, ran⟩ := bind_eq_ok ran
      cases ran
      have describes : ∀ part, TransGen graph.NamedBy id part →
          Agrees (RendersApart graph (id :: being)) (graph.NamesFinitely id)
            (getDescription graph fuel part) fun fuel => plainDescription graph fuel part := by
        intro part path names value names' inv ran
        have leads' : ∀ other ∈ id :: being, TransGen graph.NamedBy other part := by
          intro other among
          rcases List.mem_cons.mp among with rfl | among
          · exact path
          · exact (leads other among).trans path
        obtain ⟨inv', same⟩ := ih (id :: being) part leads' names value names' inv ran
        exact ⟨inv', fun finite => same (finite.part path.to_reflTransGen)⟩
      have opened : RendersApart graph (id :: being) names2 := got.2 ▸ inv.opened id
      obtain ⟨inv', same⟩ := Node.makeDescription_agrees got.1 describes names2 value names3
        opened made
      have rendered : graph.NamesFinitely id → Rendered graph id value := fun finite =>
        rendered_of_makes got.1 (same finite)
      exact ⟨inv'.closed rendered, rendered⟩

/-- Any sequence of queries that share a cache is answered; where naming reaches no cycle the
answer is the name that is rendered without a cache. -/
theorem getDescription_memoised (graph : Graph) (describable : graph.Describable) :
    ∃ enough, ∀ fuel, enough ≤ fuel → ∀ queries : List Id, (∀ id ∈ queries, graph.Is id) →
      ∃ names cache, (queries.mapM (getDescription graph fuel)).run ∅ = .ok (names, cache) ∧
        List.Forall₂ (fun id name => graph.NamesFinitely id → Rendered graph id name)
          queries names := by
  obtain ⟨enough, described⟩ := describable.nameableFrom.described
  refine ⟨enough, fun fuel more queries set => ?_⟩
  have answers : ∀ cache : NameCache, NameCache.Sound graph cache → RendersApart graph [] cache →
      ∃ names cache', (queries.mapM (getDescription graph fuel)).run cache = .ok (names, cache') ∧
        List.Forall₂ (fun id name => graph.NamesFinitely id → Rendered graph id name)
          queries names := by
    induction queries with
    | nil => exact fun cache _ _ => ⟨[], cache, rfl, .nil⟩
    | cons id queries ih =>
      intro cache sound inv
      obtain ⟨name, cache1, ran, sound1, _⟩ := described fuel more id (set id (by simp)) cache sound
        nofun
      obtain ⟨inv1, rendered⟩ := getDescription_agrees [] id nofun cache name cache1 inv ran
      obtain ⟨names, cache2, rest, later⟩ :=
        ih (fun id present => set id (by simp [present])) cache1
        sound1 inv1
      refine ⟨name :: names, cache2, ?_, .cons rendered later⟩
      have second (first : Name) : (do
          let rest ← queries.mapM (getDescription graph fuel)
          pure (first :: rest)).run cache1 = .ok (first :: names, cache2) := by
        rw [StateT.run_bind, rest]
        rfl
      rw [List.mapM_cons, StateT.run_bind, ran]
      exact second name
  exact answers ∅ nofun nofun

/-- An anonymous struct with a pointer to itself, and a pointer to an integer. -/
def selfPointer : Graph where
  nodes := [
    some (.structUnion ⟨.struct, "", some ⟨8, [], [], [⟨1⟩]⟩⟩),
    some (.member ⟨"next", ⟨2⟩, 0, 0⟩), some (.pointerReference ⟨.pointer, ⟨0⟩⟩),
    some (.pointerReference ⟨.pointer, ⟨4⟩⟩), some (.integer ⟨"int", .signedInteger, 32, 4⟩)]

theorem selfPointer_is {id : Id} (set : selfPointer.Is id) :
    id = ⟨0⟩ ∨ id = ⟨1⟩ ∨ id = ⟨2⟩ ∨ id = ⟨3⟩ ∨ id = ⟨4⟩ := by
  have inside := set.lt
  obtain ⟨ix⟩ := id
  simp only [selfPointer, List.length_cons, List.length_nil, Id.mk.injEq] at inside ⊢
  omega

theorem selfPointer_describable : selfPointer.Describable := by
  refine ⟨fun id node got => ?_, fun id set => ⟨1, ?_⟩, fun id set => ⟨3, ?_⟩,
    fun id node _ _ _ _ got => ?_⟩
  · rcases selfPointer_is ⟨node, got⟩ with rfl | rfl | rfl | rfl | rfl
    all_goals
      cases got
      simp [Node.references, Graph.Is, Graph.get, selfPointer]
  · rcases selfPointer_is set with rfl | rfl | rfl | rfl | rfl
    all_goals exact ⟨_, rfl⟩
  · rcases selfPointer_is set with rfl | rfl | rfl | rfl | rfl
    all_goals exact ⟨_, rfl⟩
  · rcases selfPointer_is ⟨_, got⟩ with rfl | rfl | rfl | rfl | rfl
    all_goals cases got

theorem selfPointer_finite : selfPointer.NamesFinitely ⟨3⟩ := by
  have steps : ∀ {id part : Id}, selfPointer.NamedBy id part → (id = ⟨3⟩ ∨ id = ⟨4⟩) →
      id = ⟨3⟩ ∧ part = ⟨4⟩ := by
    rintro id part ⟨node, got, among⟩ (rfl | rfl)
    · cases got
      exact ⟨rfl, List.mem_singleton.mp among⟩
    · cases got
      cases among
  have inside : ∀ {other : Id}, ReflTransGen selfPointer.NamedBy ⟨3⟩ other →
      other = ⟨3⟩ ∨ other = ⟨4⟩ := by
    intro other path
    induction path with
    | refl => exact .inl rfl
    | tail _ step ih => exact .inr (steps step ih).2
  intro other path cycle
  obtain ⟨next, step, rest⟩ := TransGen.head'_iff.mp cycle
  obtain ⟨rfl, rfl⟩ := steps step (inside path)
  rcases ReflTransGen.cases_head rest with same | ⟨_, step', _⟩
  · cases same
  · cases (steps step' (.inr rfl)).1

theorem getDescription_memoised_self : ∃ fuel first third cache,
    ([⟨0⟩, ⟨3⟩, ⟨1⟩].mapM (getDescription selfPointer fuel)).run ∅ =
      .ok ([first, { left := "int *", precedence := .pointer }, third], cache) := by
  obtain ⟨enough, answers⟩ := getDescription_memoised selfPointer selfPointer_describable
  obtain ⟨names, cache, ran, agree⟩ := answers enough (Nat.le_refl _) [⟨0⟩, ⟨3⟩, ⟨1⟩] (by
    simp [Graph.Is, Graph.get, selfPointer])
  obtain _ | ⟨_, _ | ⟨rendered, _ | ⟨_, _ | _⟩⟩⟩ := agree
  obtain ⟨enough', answers'⟩ := rendered selfPointer_finite
  have named : (plainDescription selfPointer (enough' + 2) ⟨3⟩).run ∅ =
      .ok ({ left := "int *", precedence := .pointer }, ∅) := rfl
  cases (answers' (enough' + 2) (Nat.le_add_right _ _) ∅).symm.trans named
  exact ⟨enough, _, _, cache, ran⟩

end Cache

end Stg
