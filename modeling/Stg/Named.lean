import Stg.Naming
import Stg.Lifetime

set_option autoImplicit false

/- Every node of a graph can be named, if its references are set, its walks end and
qualifiers are applied to types only. -/
namespace Stg

open Relation (ReflTransGen TransGen)

/-- The nodes that the name of a node is made of. -/
def Node.parts : Node → List Id
  | .pointerReference node => [node.pointeeTypeId]
  | .qualified node => [node.qualifiedTypeId]
  | .array node => [node.elementTypeId]
  | .member node => [node.typeId]
  | .structUnion node =>
    if node.name ≠ "" then [] else (node.definition.map (·.members)).getD []
  | .function node => node.parameters.map (·.typeId) ++ [node.returnTypeId]
  | .elfSymbol node => node.typeId.toList
  | _ => []

def Graph.NamedBy (graph : Graph) (id part : Id) : Prop :=
  ∃ node, graph.get id = .ok node ∧ part ∈ node.parts

def Graph.Qualifies (graph : Graph) (id : Id) : Prop :=
  ∃ node, graph.get id = .ok (.qualified node)

/-- Naming passes from a qualifier to the node below it. -/
def Graph.Passes (graph : Graph) (id part : Id) : Prop :=
  graph.Qualifies id ∧ graph.NamedBy id part

/-- The qualifiers at the node are applied to a type, not to a member or a symbol. -/
def Graph.QualifiesType (graph : Graph) (id : Id) : Prop :=
  ∀ node fuel last qualifiers target, graph.get id = .ok (.qualified node) →
    resolveQualifiers graph fuel id ∅ = .ok (last, qualifiers) → graph.get last = .ok target →
    target.kind ≠ .member ∧ target.kind ≠ .elfSymbol

/-- The node puts qualifiers on a member or a symbol. -/
def Graph.Misqualifies (graph : Graph) (id last : Id) : Prop :=
  ∃ node fuel qualifiers target, graph.get id = .ok (.qualified node) ∧
    resolveQualifiers graph fuel id ∅ = .ok (last, qualifiers) ∧ graph.get last = .ok target ∧
    (target.kind = .member ∨ target.kind = .elfSymbol)

/-- Naming the node comes to such qualifiers only through the member or symbol itself, which
then is still being named. -/
def Graph.QualifiesTypesFrom (graph : Graph) (start : Id) : Prop :=
  ∀ id last, graph.Misqualifies id last →
    ¬ ReflTransGen (fun a b => a ≠ last ∧ graph.NamedBy a b) start id

/-- Qualifiers are applied to types, not to members or symbols. -/
def Graph.QualifiesTypes (graph : Graph) : Prop := ∀ id, graph.QualifiesType id

/-- What naming relies on. -/
structure Graph.Nameable (graph : Graph) : Prop where
  references : graph.ReferencesSet
  resolves : graph.Resolves
  qualified : graph.QualifiesTypes

/-- What describing a node relies on. -/
structure Graph.Describable (graph : Graph) : Prop where
  references : graph.ReferencesSet
  qualifiers : ∀ id, graph.Is id → ∃ fuel out, resolveQualifiers graph fuel id ∅ = .ok out
  keys : ∀ id, graph.Is id → ∃ fuel key, matchingKey graph fuel id = .ok key
  qualified : graph.QualifiesTypes

theorem Graph.Nameable.describable {graph : Graph} (nameable : graph.Nameable) :
    graph.Describable :=
  ⟨nameable.references, nameable.resolves.qualifiers, nameable.resolves.keys, nameable.qualified⟩

/-- The node is set and the walks that naming makes from it end: past qualifiers and, for a
base class, to its key. -/
structure Graph.NamingEnds (graph : Graph) (id : Id) : Prop where
  qualifiers : ∃ fuel out, resolveQualifiers graph fuel id ∅ = .ok out
  key : ∀ node, graph.get id = .ok (.baseClass node) → ∃ fuel key, matchingKey graph fuel id = .ok key

/-- The nodes that come up when the given ones are named. -/
def Graph.NamedFrom (graph : Graph) (starts : Id → Prop) (part : Id) : Prop :=
  ∃ start, starts start ∧ ReflTransGen graph.NamedBy start part

/-- The nodes can be named, one after the other. -/
structure Graph.NameableFrom (graph : Graph) (starts : Id → Prop) : Prop where
  walks : ∀ part, graph.NamedFrom starts part → graph.NamingEnds part
  qualified : ∀ start, starts start → graph.QualifiesTypesFrom start

variable {graph : Graph} {fuel : Nat}

theorem Node.parts_subset (node : Node) : ∀ part ∈ node.parts, part ∈ node.references := by
  intro part among
  cases node with
  | structUnion node =>
    by_cases named : node.name ≠ ""
    · rw [Node.parts, if_pos named] at among
      cases among
    · rw [Node.parts, if_neg named] at among
      cases held : node.definition with
      | none =>
        rw [held] at among
        cases among
      | some definition =>
        rw [held] at among
        simp only [Node.references, held]
        exact List.mem_append_right _ among
  | function node => simpa [Node.parts, Node.references, or_comm] using among
  | _ => first | exact among | cases among

theorem Graph.QualifiesTypes.from (types : graph.QualifiesTypes) (start : Id) :
    graph.QualifiesTypesFrom start := by
  rintro id last ⟨node, fuel, qualifiers, target, got, found, gotTarget, refused⟩ _
  obtain ⟨notMember, notSymbol⟩ := types id node fuel last qualifiers target got found gotTarget
  exact refused.elim notMember notSymbol

theorem Graph.Describable.nameableFrom (describable : graph.Describable) :
    graph.NameableFrom graph.Is where
  walks := by
    rintro part ⟨start, set, path⟩
    have set' : graph.Is part := by
      induction path with
      | refl => exact set
      | tail _ step =>
        obtain ⟨node, got, among⟩ := step
        exact describable.references _ node got _ (node.parts_subset _ among)
    exact ⟨describable.qualifiers part set', fun _ _ => describable.keys part set'⟩
  qualified start _ := describable.qualified.from start

/-- The walks that naming makes end with this fuel. -/
structure Graph.WalksWithin (graph : Graph) (inside : Id → Prop) (fuel : Nat) : Prop where
  qualifiers : ∀ id, inside id → ∃ out, resolveQualifiers graph fuel id ∅ = .ok out
  keys : ∀ id node, inside id → graph.get id = .ok (.baseClass node) →
    ∃ key, matchingKey graph fuel id = .ok key

theorem Graph.NamingEnds.set {id : Id} (ends : graph.NamingEnds id) : graph.Is id := by
  obtain ⟨_, _, found⟩ := ends.qualifiers
  exact resolveQualifiers_start found

theorem Graph.NameableFrom.within {starts : Id → Prop} (nameable : graph.NameableFrom starts) :
    ∃ enough, ∀ fuel, enough ≤ fuel → graph.WalksWithin (graph.NamedFrom starts) fuel := by
  have set : ∀ id, graph.NamedFrom starts id → graph.Is id := fun id inside =>
    (nameable.walks id inside).set
  obtain ⟨enoughQ, qualifiers⟩ := uniform_fuel set
    (fun _ _ id more => resolveQualifiers_yields more id ∅)
    fun id inside => (nameable.walks id inside).qualifiers
  have bases : ∀ id, (graph.NamedFrom starts id ∧ ∃ node, graph.get id = .ok (.baseClass node)) →
      ∃ fuel key, matchingKey graph fuel id = .ok key :=
    fun id ⟨inside, node, got⟩ => (nameable.walks id inside).key node got
  obtain ⟨enoughK, keys⟩ := uniform_fuel (fun id base => set id base.1)
    (fun _ _ id more => matchingKey_yields more id) bases
  refine ⟨max enoughQ enoughK, fun fuel more => ⟨?_, ?_⟩⟩
  · exact qualifiers fuel (by omega)
  · exact fun id node inside got => keys fuel (by omega) id ⟨inside, node, got⟩

/-- The kinds of node whose names take qualifiers. -/
def Node.Kind.TakesQualifiers (kind : Node.Kind) : Prop :=
  kind ≠ .qualified ∧ kind ≠ .array ∧ kind ≠ .function ∧ kind ≠ .member ∧ kind ≠ .elfSymbol

/-- The name can be qualified if names of the kind are. -/
def Name.Fits (kind : Node.Kind) (name : Name) : Prop :=
  kind.TakesQualifiers → name.precedence = .nil ∨ name.precedence = .pointer

/-- The name of the node can be qualified if it may have to be. -/
def Graph.Fits (graph : Graph) (id : Id) (name : Name) : Prop :=
  ∀ node, graph.get id = .ok node → name.Fits node.kind

def NameCache.Sound (graph : Graph) (names : NameCache) : Prop :=
  ∀ id name, names.lookup id = some name → graph.Fits id name

theorem NameCache.Sound.insert {names : NameCache} {id : Id} {name : Name}
    (sound : names.Sound graph) (fits : graph.Fits id name) :
    NameCache.Sound graph (names.insert id name) := by
  intro other held found
  by_cases same : other = id
  · subst same
    rw [AList.lookup_insert] at found
    cases found
    exact fits
  · rw [AList.lookup_insert_ne same] at found
    exact sound other held found

/-- The names of the first cache are in the second. -/
def NameCache.Keeps (names names' : NameCache) : Prop :=
  ∀ id name, names.lookup id = some name → names'.lookup id = some name

theorem NameCache.Keeps.refl (names : NameCache) : names.Keeps names := fun _ _ held => held

theorem NameCache.Keeps.trans {names names' names'' : NameCache} (first : names.Keeps names')
    (second : names'.Keeps names'') : names.Keeps names'' :=
  fun id name held => second id name (first id name held)

theorem NameCache.Keeps.mem {names names' : NameCache} (keeps : names.Keeps names') {id : Id}
    (among : id ∈ names) : id ∈ names' := by
  obtain ⟨name, held⟩ := Option.isSome_iff_exists.mp (AList.lookup_isSome.mpr among)
  exact AList.lookup_isSome.mp (by rw [keeps id name held]; rfl)

theorem NameCache.Keeps.insert {names names' : NameCache} (keeps : names.Keeps names') {id : Id}
    (absent : id ∉ names) (name : Name) : names.Keeps (names'.insert id name) := by
  intro other held found
  have differs : other ≠ id := by
    rintro rfl
    exact absent (AList.lookup_isSome.mp (by rw [found]; rfl))
  rw [AList.lookup_insert_ne differs]
  exact keeps other held found

section Walks

/-- Only qualifiers are passed. -/
theorem resolveQualifiers_chain {id last : Id} {qualifiers collected : Qualifiers}
    (found : resolveQualifiers graph fuel id qualifiers = .ok (last, collected)) :
    ReflTransGen graph.Passes id last := by
  induction fuel generalizing id qualifiers with
  | zero => cases found
  | succ fuel ih =>
    obtain ⟨node, got, found⟩ := bind_eq_ok found
    cases node
    case qualified node => exact .head ⟨⟨_, got⟩, _, got, List.mem_cons_self⟩ (ih found)
    all_goals
      cases found
      exact .refl

theorem resolveQualifiers_path {id last : Id} {qualifiers collected : Qualifiers}
    (found : resolveQualifiers graph fuel id qualifiers = .ok (last, collected)) :
    ReflTransGen graph.NamedBy id last :=
  ReflTransGen.mono (fun _ _ step => step.2) id last (resolveQualifiers_chain found)

theorem resolveQualifiers_drops {id last : Id} {qualifiers collected : Qualifiers} {node : Node}
    (found : resolveQualifiers graph fuel id qualifiers = .ok (last, collected))
    (got : graph.get last = .ok node) (drops : node.kind = .array ∨ node.kind = .function) :
    collected = ∅ := by
  induction fuel generalizing id qualifiers with
  | zero => cases found
  | succ fuel ih =>
    obtain ⟨first, gotFirst, rest⟩ := bind_eq_ok found
    cases first with
    | qualified => exact ih rest
    | array => cases rest; rfl
    | function => cases rest; rfl
    | _ =>
      cases rest
      cases got.symm.trans gotFirst
      rcases drops with drops | drops <;> cases drops

theorem BaseClass.key_within {inside : Id → Prop} {self : BaseClass} {id : Id}
    (walks : graph.WalksWithin inside fuel) (got : graph.get id = .ok (.baseClass self))
    (within : inside id) : ∃ key, matchingKey graph fuel self.typeId = .ok key := by
  obtain ⟨key, found⟩ := walks.keys id self within got
  cases fuel with
  | zero => cases found
  | succ fuel =>
    rw [matchingKey, got] at found
    exact ⟨key, matchingKey_yields (Nat.le_succ fuel) _ _ found⟩

theorem Name.qualify_returns {name : Name} {qualifiers : Qualifiers}
    (fits : qualifiers = ∅ ∨ name.precedence = .nil ∨ name.precedence = .pointer) :
    ∃ qualified, name.qualify qualifiers = .ok qualified := by
  unfold Name.qualify
  split
  · exact ⟨_, rfl⟩
  · rename_i some_
    rcases fits with none_ | fits | fits
    · exact absurd none_ some_
    · rw [fits]
      exact ⟨_, rfl⟩
    · rw [fits]
      exact ⟨_, rfl⟩

end Walks

section Calls

variable {α β : Type} {naming : Id → Prop}

/-- From any sound cache in which the nodes that are being named have black holes, the call
returns a value with the property; it leaves a sound cache and changes no name. -/
def Named (graph : Graph) (naming : Id → Prop) (call : NameM α) (property : α → Prop) : Prop :=
  ∀ names : NameCache, names.Sound graph →
    (∀ id, naming id → names.lookup id = some blackHole) →
    ∃ value names', call.run names = .ok (value, names') ∧ NameCache.Sound graph names' ∧
      names.Keeps names' ∧ property value

theorem Named.pure {property : α → Prop} {value : α} (holds : property value) :
    Named graph naming (Pure.pure value) property :=
  fun names sound _ => ⟨value, names, rfl, sound, .refl names, holds⟩

theorem Named.bind {call : NameM α} {rest : α → NameM β} {middle : α → Prop} {property : β → Prop}
    (first : Named graph naming call middle)
    (second : ∀ value, middle value → Named graph naming (rest value) property) :
    Named graph naming (call >>= rest) property := by
  intro names sound open_
  obtain ⟨value, names', ran, sound', keeps, holds⟩ := first names sound open_
  obtain ⟨value', names'', ran', sound'', keeps', holds'⟩ :=
    second value holds names' sound' fun id being => keeps id _ (open_ id being)
  refine ⟨value', names'', ?_, sound'', keeps.trans keeps', holds'⟩
  rw [StateT.run_bind, ran]
  exact ran'

theorem Named.ofExcept {call : Except Error α} {property : α → Prop} {value : α}
    (returns : call = .ok value) (holds : property value) :
    Named graph naming (Stg.ofExcept call) property := by
  rw [returns]
  exact Named.pure holds

theorem Named.imp {call : NameM α} {property weaker : α → Prop}
    (named : Named graph naming call property) (each : ∀ value, property value → weaker value) :
    Named graph naming call weaker := by
  intro names sound open_
  obtain ⟨value, names', ran, sound', keeps, holds⟩ := named names sound open_
  exact ⟨value, names', ran, sound', keeps, each value holds⟩

/-- Naming has come to the node from one of the given ones, past nodes that are being named and
past qualifiers. -/
def Graph.Trail (graph : Graph) (starts naming : Id → Prop) (id : Id) : Prop :=
  ∃ start, starts start ∧
    ReflTransGen (fun a b => (naming a ∨ graph.Qualifies a) ∧ graph.NamedBy a b) start id

variable {starts : Id → Prop} {id : Id}

theorem Graph.Trail.within (trail : graph.Trail starts naming id) : graph.NamedFrom starts id := by
  obtain ⟨start, begins, path⟩ := trail
  exact ⟨start, begins, ReflTransGen.mono (fun _ _ step => step.2) start id path⟩

theorem Graph.Trail.tail {part : Id} (trail : graph.Trail starts naming id)
    (passed : naming id ∨ graph.Qualifies id) (step : graph.NamedBy id part) :
    graph.Trail starts naming part := by
  obtain ⟨start, begins, path⟩ := trail
  exact ⟨start, begins, path.tail ⟨passed, step⟩⟩

theorem Graph.Trail.unqualified {last : Id} {qualifiers collected : Qualifiers}
    (trail : graph.Trail starts naming id)
    (found : resolveQualifiers graph fuel id qualifiers = .ok (last, collected)) :
    graph.Trail starts naming last := by
  obtain ⟨start, begins, path⟩ := trail
  refine ⟨start, begins, path.trans (ReflTransGen.mono ?_ id last (resolveQualifiers_chain found))⟩
  exact fun a b step => ⟨.inr step.1, step.2⟩

theorem Graph.Trail.more {naming' : Id → Prop} (trail : graph.Trail starts naming id)
    (more : ∀ id, naming id → naming' id) : graph.Trail starts naming' id := by
  obtain ⟨start, begins, path⟩ := trail
  refine ⟨start, begins, ReflTransGen.mono ?_ start id path⟩
  exact fun a b step => ⟨step.1.imp_left (more a), step.2⟩

/-- A name that the node is given, the black hole if it is being named. -/
def Graph.Answers (graph : Graph) (naming : Id → Prop) (id : Id) (name : Name) : Prop :=
  graph.Fits id name ∧ (naming id → name = blackHole)

/-- A node that has to be qualified has a name that can be, or is being named. -/
theorem Graph.Trail.qualifies {self : Qualified} {last : Id} {qualifiers : Qualifiers} {name : Name}
    (types : ∀ start, starts start → graph.QualifiesTypesFrom start)
    (trail : graph.Trail starts naming id) (got : graph.get id = .ok (.qualified self))
    (found : resolveQualifiers graph fuel id ∅ = .ok (last, qualifiers))
    (answers : graph.Answers naming last name) :
    qualifiers = ∅ ∨ name.precedence = .nil ∨ name.precedence = .pointer := by
  obtain ⟨target, gotTarget, notQualified⟩ := resolveQualifiers_end found
  by_cases being : naming last
  · rw [answers.2 being]
    exact .inr (.inl rfl)
  by_cases drops : target.kind = .array ∨ target.kind = .function
  · exact .inl (resolveQualifiers_drops found gotTarget drops)
  obtain ⟨start, begins, path⟩ := trail
  have avoids : ReflTransGen (fun a b => a ≠ last ∧ graph.NamedBy a b) start id := by
    refine ReflTransGen.mono ?_ start id path
    rintro a b ⟨passed, step⟩
    refine ⟨?_, step⟩
    rintro rfl
    rcases passed with passed | ⟨_, got'⟩
    · exact being passed
    · cases gotTarget.symm.trans got'
      exact notQualified rfl
  have accepted : ¬ (target.kind = .member ∨ target.kind = .elfSymbol) := fun refused =>
    types start begins id last ⟨self, fuel, qualifiers, target, got, found, gotTarget, refused⟩
      avoids
  rw [not_or] at drops accepted
  exact .inr (answers.1 target gotTarget
    ⟨notQualified, drops.1, drops.2, accepted.1, accepted.2⟩)

variable {describe : Id → NameM Name} (describes : ∀ id, graph.Trail starts naming id →
  Named graph naming (describe id) (graph.Answers naming id))

include describes

theorem describeAll_named (before after : String) {ids : List Id}
    (within : ∀ id ∈ ids, graph.Trail starts naming id) :
    Named graph naming (describeAll describe before after ids) fun _ => True := by
  induction ids with
  | nil => exact Named.pure trivial
  | cons id ids ih =>
    refine Named.bind (describes id (within id (by simp))) fun _ _ => ?_
    refine Named.bind (ih fun id present => within id (by simp [present])) fun _ _ => ?_
    exact Named.pure trivial

theorem StructUnion.describeBody_named {self : StructUnion}
    (within : ∀ id ∈ (Node.structUnion self).parts, graph.Trail starts naming id) :
    Named graph naming (self.describeBody describe) fun _ => True := by
  unfold StructUnion.describeBody
  split
  · exact Named.pure trivial
  · rename_i anonymous
    cases held : self.definition with
    | none => exact Named.pure trivial
    | some definition =>
      have members : ∀ id ∈ definition.members, graph.Trail starts naming id := by
        intro id present
        refine within id ?_
        rw [Node.parts, if_neg anonymous, held]
        exact present
      exact Named.bind (describeAll_named describes _ _ members) fun _ _ => Named.pure trivial

theorem describeParameters_named {ids : List Id}
    (within : ∀ id ∈ ids, graph.Trail starts naming id) :
    Named graph naming (describeParameters describe ids) fun _ => True := by
  cases ids with
  | nil => exact Named.pure trivial
  | cons first others =>
    refine Named.bind (describes first (within first (by simp))) fun _ _ => ?_
    refine Named.bind
      (describeAll_named describes _ _ fun id present => within id (by simp [present])) fun _ _ =>
        ?_
    exact Named.pure trivial

theorem Qualified.makeDescription_named {self : Qualified}
    (nameable : graph.NameableFrom starts)
    (walks : graph.WalksWithin (graph.NamedFrom starts) fuel)
    (got : graph.get id = .ok (.qualified self)) (trail : graph.Trail starts naming id) :
    Named graph naming ((Node.qualified self).makeDescription graph fuel describe) fun _ =>
      True := by
  have inner : graph.Trail starts naming self.qualifiedTypeId :=
    trail.tail (.inr ⟨self, got⟩) ⟨_, got, List.mem_cons_self⟩
  obtain ⟨_, found⟩ := walks.qualifiers self.qualifiedTypeId inner.within
  obtain ⟨⟨under, qualifiers⟩, found⟩ := resolveQualifiers_ends found {self.qualifier}
  have whole : resolveQualifiers graph (fuel + 1) id ∅ = .ok (under, qualifiers) := by
    rw [resolveQualifiers, got]
    exact found
  have walked : Named graph naming (ofExcept (resolveQualifiers graph fuel self.qualifiedTypeId
      {self.qualifier})) (· = (under, qualifiers)) := Named.ofExcept found rfl
  refine Named.bind walked ?_
  rintro _ rfl
  refine Named.bind (describes under (inner.unqualified found)) fun name answers => ?_
  obtain ⟨_, returns⟩ :=
    Name.qualify_returns (trail.qualifies nameable.qualified got whole answers)
  exact Named.ofExcept returns trivial

/-- Where the parts of a node can be named the node can. -/
theorem Node.makeDescription_named {node : Node}
    (nameable : graph.NameableFrom starts)
    (walks : graph.WalksWithin (graph.NamedFrom starts) fuel)
    (got : graph.get id = .ok node) (being : naming id) (trail : graph.Trail starts naming id) :
    Named graph naming (node.makeDescription graph fuel describe) (graph.Fits id) := by
  have fits : ∀ name : Name, name.Fits node.kind → graph.Fits id name := by
    intro name fits node' got'
    cases got.symm.trans got'
    exact fits
  have plain : ∀ name : Name, name.precedence = .nil → graph.Fits id name :=
    fun name isNil => fits name fun _ => .inl isNil
  have parts : ∀ part ∈ node.parts, graph.Trail starts naming part := fun part among =>
    trail.tail (.inl being) ⟨node, got, among⟩
  cases node with
  | void => exact Named.pure (plain _ rfl)
  | variadic => exact Named.pure (plain _ rfl)
  | typedef => exact Named.pure (plain _ rfl)
  | integer => exact Named.pure (plain _ rfl)
  | method => exact Named.pure (plain _ rfl)
  | enumeration => exact Named.pure (plain _ rfl)
  | symbols => exact Named.pure (plain _ rfl)
  | pointerReference node =>
    refine Named.bind (describes _ (parts _ (by simp [Node.parts]))) fun _ _ => ?_
    exact Named.pure (fits _ fun _ => .inr rfl)
  | array node =>
    refine Named.bind (describes _ (parts _ (by simp [Node.parts]))) fun _ _ => ?_
    exact Named.pure (fits _ fun takes => absurd rfl takes.2.1)
  | qualified node =>
    refine (Qualified.makeDescription_named describes nameable walks got trail).imp fun name _ =>
      ?_
    exact fits _ fun takes => absurd rfl takes.1
  | baseClass node =>
    obtain ⟨key, found⟩ := node.key_within walks got trail.within
    exact Named.bind (Named.ofExcept found trivial) fun _ (_ : True) => Named.pure (plain _ rfl)
  | member node =>
    refine Named.bind (describes _ (parts _ (by simp [Node.parts]))) fun _ _ => ?_
    exact Named.pure (fits _ fun takes => absurd rfl takes.2.2.2.1)
  | structUnion node =>
    refine Named.bind (StructUnion.describeBody_named describes parts) fun _ _ => ?_
    exact Named.pure (plain _ rfl)
  | function node =>
    simp only [Node.parts, List.mem_append, List.mem_singleton] at parts
    refine Named.bind (describeParameters_named describes fun id present => parts id (.inl present))
      fun _ _ => ?_
    refine Named.bind (describes _ (parts _ (.inr rfl))) fun _ _ => ?_
    exact Named.pure (fits _ fun takes => absurd rfl takes.2.2.1)
  | elfSymbol node =>
    have symbol : ∀ name, graph.Fits id name := fun name => fits name fun takes =>
      absurd rfl takes.2.2.2.2
    unfold Node.makeDescription
    dsimp only
    split
    · rename_i typeId held
      refine Named.bind (describes _ (parts _ (by simp [Node.parts, held]))) fun _ _ => ?_
      exact Named.pure (symbol _)
    · exact Named.pure (symbol _)

end Calls

section Descriptions

open Classical

/-- The set nodes that are not being named. -/
noncomputable def Graph.unnamed (graph : Graph) (naming : Id → Prop) : Finset Id :=
  graph.ids.filter (¬ naming ·)

theorem Graph.mem_unnamed {naming : Id → Prop} {id : Id} :
    id ∈ graph.unnamed naming ↔ graph.Is id ∧ ¬ naming id := by
  simp only [Graph.unnamed, Finset.mem_filter, Graph.mem_ids]

theorem Graph.unnamed_lt {naming : Id → Prop} {id : Id} (set : graph.Is id) (fresh : ¬ naming id) :
    (graph.unnamed fun other => naming other ∨ other = id).card < (graph.unnamed naming).card := by
  apply Finset.card_lt_card
  rw [Finset.ssubset_iff_of_subset]
  · refine ⟨id, Graph.mem_unnamed.mpr ⟨set, fresh⟩, fun among => ?_⟩
    exact (Graph.mem_unnamed.mp among).2 (.inr rfl)
  · intro other among
    obtain ⟨set, unnamed⟩ := Graph.mem_unnamed.mp among
    exact Graph.mem_unnamed.mpr ⟨set, fun being => unnamed (.inl being)⟩

/-- With fuel for the walks and for the nodes that are not being named, every node is named. -/
theorem getDescription_named {starts : Id → Prop} (nameable : graph.NameableFrom starts)
    {walk : Nat}
    (walks : ∀ fuel, walk ≤ fuel → graph.WalksWithin (graph.NamedFrom starts) fuel)
    (naming : Id → Prop) (plenty : walk + (graph.unnamed naming).card < fuel) {id : Id}
    (trail : graph.Trail starts naming id) :
    Named graph naming (getDescription graph fuel id) (graph.Answers naming id) := by
  induction fuel generalizing naming id with
  | zero => exact absurd plenty (Nat.not_lt_zero _)
  | succ fuel ih =>
    intro names sound open_
    rw [getDescription, StateT.run_bind, StateT.run_get, pure_bind]
    cases held : names.lookup id with
    | some cached =>
      refine ⟨cached, names, rfl, sound, .refl names, sound id cached held, fun being => ?_⟩
      exact Option.some.inj (held.symm.trans (open_ id being))
    | none =>
      have absent : id ∉ names := AList.lookup_eq_none.mp held
      have fresh : ¬ naming id := fun being => by
        rw [open_ id being] at held
        cases held
      have set := (nameable.walks id trail.within).set
      have fewer := Graph.unnamed_lt set fresh
      obtain ⟨node, got⟩ := set
      have describes : ∀ part, graph.Trail starts (fun other => naming other ∨ other = id) part →
          Named graph (fun other => naming other ∨ other = id) (getDescription graph fuel part)
            (graph.Answers (fun other => naming other ∨ other = id) part) :=
        fun part trail => ih _ (by omega) trail
      -- a black hole stands for the node while the parts are named
      have opened : ∀ other, naming other ∨ other = id →
          (names.insert id blackHole).lookup other = some blackHole := by
        intro other being
        by_cases same : other = id
        · rw [same, AList.lookup_insert]
        · rw [AList.lookup_insert_ne same]
          exact open_ other (being.resolve_right same)
      obtain ⟨name, names', ran, sound', keeps, fits⟩ :=
        Node.makeDescription_named describes nameable (walks fuel (by omega)) got (.inr rfl)
          (trail.more fun _ => .inl) (names.insert id blackHole)
          (sound.insert fun _ _ _ => .inl rfl) opened
      have kept : names.Keeps names' :=
        ((NameCache.Keeps.refl names).insert absent blackHole).trans keeps
      refine ⟨name, names'.insert id name, ?_, sound'.insert fits, kept.insert absent name, fits,
        fun being => absurd being fresh⟩
      rw [got]
      change (node.makeDescription graph fuel (getDescription graph fuel) >>= fun name => do
        modify fun names => names.insert id name
        pure name : NameM Name).run (names.insert id blackHole) = _
      rw [StateT.run_bind, ran]
      rfl

/-- There is fuel to describe any of the nodes, whatever has been described before. -/
theorem Graph.NameableFrom.described {starts : Id → Prop} (nameable : graph.NameableFrom starts) :
    ∃ enough, ∀ fuel, enough ≤ fuel → ∀ id, starts id →
      Named graph (fun _ => False) (getDescription graph fuel id) (graph.Fits id) := by
  obtain ⟨walk, walks⟩ := nameable.within
  refine ⟨walk + (graph.unnamed fun _ => False).card + 1, fun fuel more id begins => ?_⟩
  exact (getDescription_named nameable walks _ (by omega) ⟨id, begins, .refl⟩).imp
    fun _ answers => answers.1

/-- Fuel that is enough to name any node of the graph. -/
def Graph.NamesWithin (graph : Graph) (fuel : Nat) : Prop :=
  graph.ResolvesWithin fuel ∧ ∀ id, graph.Is id →
    Named graph (fun _ => False) (getDescription graph fuel id) (graph.Fits id)

theorem Graph.Nameable.within (nameable : graph.Nameable) :
    ∃ enough, ∀ fuel, enough ≤ fuel → graph.NamesWithin fuel := by
  obtain ⟨walk, within⟩ := nameable.resolves.within
  obtain ⟨enough, described⟩ := nameable.describable.nameableFrom.described
  refine ⟨max walk enough, fun fuel more => ⟨within fuel ?_, described fuel ?_⟩⟩
  · exact le_trans (le_max_left _ _) more
  · exact le_trans (le_max_right _ _) more

end Descriptions

end Stg
