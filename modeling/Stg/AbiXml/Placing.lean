import Stg.AbiXml.Document

set_option autoImplicit false

/- What it means that the reader has what a part of a document says, and how its steps
keep that. -/
namespace Stg.AbiXml

/-- The ids of the addresses that have got one. -/
abbrev Place := Address → Option Id

namespace Place

variable {place place' place'' : Place} {address other : Address} {id : Id} {content : Content}
  {node : Node}

/-- The id of an address that has got one. -/
def at_ (place : Place) (address : Address) : Id := (place address).getD ⟨0⟩

def Extends (place place' : Place) : Prop :=
  ∀ address id, place address = some id → place' address = some id

/-- The node is the content, and what it refers to has got ids. -/
structure Makes (place : Place) (content : Content) (node : Node) : Prop where
  node : node = content.node place.at_
  references : ∀ address ∈ content.references, place address ≠ none

theorem Extends.refl (place : Place) : place.Extends place := fun _ _ held => held

theorem Extends.trans (first : place.Extends place') (second : place'.Extends place'') :
    place.Extends place'' :=
  fun address id held => second address id (first address id held)

theorem Extends.placed (extends_ : place.Extends place') (placed : place address ≠ none) :
    place' address ≠ none := by
  obtain ⟨id, held⟩ := Option.ne_none_iff_exists'.mp placed
  rw [extends_ address id held]
  exact Option.some_ne_none id

theorem Extends.same (extends_ : place.Extends place') (placed : place address ≠ none) :
    place'.at_ address = place.at_ address := by
  obtain ⟨id, held⟩ := Option.ne_none_iff_exists'.mp placed
  unfold at_
  rw [held, extends_ address id held]

theorem Extends.node_eq (extends_ : place.Extends place')
    (references : ∀ address ∈ content.references, place address ≠ none) :
    content.node place'.at_ = content.node place.at_ :=
  Content.node_congr fun address among => extends_.same (references address among)

theorem Extends.makes (extends_ : place.Extends place') (makes : place.Makes content node) :
    place'.Makes content node where
  node := makes.node.trans (extends_.node_eq makes.references).symm
  references address among := extends_.placed (makes.references address among)

def update (place : Place) (address : Address) (id : Id) : Place :=
  fun other => if other = address then some id else place other

@[simp] theorem update_same : place.update address id address = some id := if_pos rfl

theorem update_ne (different : other ≠ address) : place.update address id other = place other :=
  if_neg different

theorem extends_update (fresh : place address = none) :
    place.Extends (place.update address id) := by
  intro other given held
  rw [update_ne]
  · exact held
  · rintro rfl
    rw [fresh] at held
    cases held

end Place

namespace Contents

variable (contents before after : Contents)

/-- What the document says of an address. -/
def content? (address : Address) : Option Content :=
  if address = .variadic then some .variadic else contents.entries.lookup address

/-- The address has been mentioned or said something of. -/
def Knows (address : Address) : Prop := address ∈ contents.mentions ∨ address ∈ contents.addresses

@[simp] theorem entries_append : (before ++ after).entries = before.entries ++ after.entries := rfl
@[simp] theorem mentions_append :
    (before ++ after).mentions = before.mentions ++ after.mentions := rfl
@[simp] theorem unlinked_append :
    (before ++ after).unlinked = before.unlinked ++ after.unlinked := rfl
@[simp] theorem declarations_append :
    (before ++ after).declarations = before.declarations ++ after.declarations := rfl
@[simp] theorem addresses_append :
    (before ++ after).addresses = before.addresses ++ after.addresses := List.map_append

variable {contents before after} {address : Address} {content : Content}

@[simp] theorem append_empty : contents ++ ({} : Contents) = contents := by
  obtain ⟨entries, mentions, unlinked, declarations⟩ := contents
  change Contents.mk (entries ++ []) (mentions ++ []) (unlinked ++ []) (declarations ++ []) = _
  simp

@[simp] theorem empty_append : ({} : Contents) ++ contents = contents := rfl

theorem append_assoc (first second third : Contents) :
    first ++ second ++ third = first ++ (second ++ third) := by
  change Contents.mk _ _ _ _ = Contents.mk _ _ _ _
  simp

theorem knows_append : (before ++ after).Knows address ↔ before.Knows address ∨
    after.Knows address := by
  simp only [Knows, mentions_append, addresses_append, List.mem_append]
  tauto

theorem lookup_eq_none_iff : contents.entries.lookup address = none ↔
    address ∉ contents.addresses := by
  simp only [List.lookup_eq_none_iff, addresses, List.mem_map, bne_iff_ne, not_exists, not_and]
  constructor
  · intro others entry among same
    exact others entry among same.symm
  · intro others entry among same
    exact others entry among same.symm

theorem content?_append_of_absent (absent : address ∉ after.addresses) :
    (before ++ after).content? address = before.content? address := by
  unfold content?
  rw [entries_append, List.lookup_append, lookup_eq_none_iff.mpr absent, Option.or_none]

theorem addresses_append_of_silent (silent : after.entries = []) :
    (before ++ after).addresses = before.addresses := by
  rw [addresses_append]
  simp [addresses, silent]

theorem content?_append_of_silent (silent : after.entries = []) (address : Address) :
    (before ++ after).content? address = before.content? address := by
  apply content?_append_of_absent
  simp [addresses, silent]

end Contents

/-- The tables of ELF symbols are not touched. -/
structure Corpus.SameSymbols (s s' : Corpus) : Prop where
  symbolInfoMap : s'.symbolInfoMap = s.symbolInfoMap
  aliasToMain : s'.aliasToMain = s.aliasToMain

/-- The reader, which started with the graph `base`, has what the document has said. -/
structure Holds (base : Graph) (s : Corpus) (said : Contents) (place : Place) : Prop where
  extends_ : base.Extends s.graph
  type : ∀ typeId, s.typeIds.lookup typeId = place (.type typeId)
  variadic : s.variadic = place .variadic
  injective : ∀ address other id, place address = some id → place other = some id → address = other
  new : ∀ address id, place address = some id →
    base.nodes.length ≤ id.ix ∧ id.ix < s.graph.nodes.length
  slot : ∀ address id, place address = some id →
    s.graph.nodes[id.ix]? = some ((said.content? address).map (·.node place.at_))
  closed : ∀ address content, said.content? address = some content →
    ∀ reference ∈ content.references, place reference ≠ none
  known : ∀ address, place address ≠ none ↔ said.Knows address
  made : ∀ id : Id, base.nodes.length ≤ id.ix → id.ix < s.graph.nodes.length →
    (∃ address, place address = some id) ∨
      ∃ node, ∃ content ∈ said.unlinked, s.graph.get id = .ok node ∧ place.Makes content node
  unique : said.addresses.Nodup
  variadicImplicit : .variadic ∉ said.addresses
  mentioned : ∀ address ∈ said.mentions, address = .variadic ∨ ∃ typeId, address = .type typeId
  declared : ∀ symbolId, s.symbolIdAndFullName.lookup symbolId =
    (said.declarations.lookup symbolId).map fun declaration =>
      (place.at_ declaration.1, declaration.2)
  declaredPlaced : ∀ symbolId type name, said.declarations.lookup symbolId = some (type, name) →
    place type ≠ none ∧ type.IsType
  fits : ∀ entry ∈ said.entries, entry.2.Fits entry.1
  unlinkedFits : ∀ content ∈ said.unlinked, content.Fits (.part .function .document 0)

namespace Holds

variable {base : Graph} {s s' : Corpus} {said after : Contents} {place : Place} {address : Address}
  {id : Id} {content : Content} {node : Node} {held : Option Node}

/-- An address that has no id yet is said nothing of. -/
theorem absent (holds : Holds base s said place) (fresh : place address = none) :
    address ∉ said.addresses := by
  intro present
  exact (holds.known address).mpr (.inr present) fresh

/-- A new slot at the end is the place of a new address. -/
theorem placed (holds : Holds base s said place) (fresh : place address = none)
    (graph : s'.graph = ⟨s.graph.nodes ++ [held]⟩)
    (type : ∀ typeId, s'.typeIds.lookup typeId =
      place.update address ⟨s.graph.nodes.length⟩ (.type typeId))
    (variadic : s'.variadic = place.update address ⟨s.graph.nodes.length⟩ .variadic)
    (symbols : s'.symbolIdAndFullName = s.symbolIdAndFullName)
    (others : ∀ other, other ≠ address → (said ++ after).content? other = said.content? other)
    (own : held = ((said ++ after).content? address).map (·.node place.at_))
    (references : ∀ content, (said ++ after).content? address = some content →
      ∀ reference ∈ content.references, place reference ≠ none)
    (known : ∀ other, after.Knows other ↔ other = address)
    (declarations : after.declarations = [])
    (unique : (said ++ after).addresses.Nodup)
    (variadicImplicit : .variadic ∉ (said ++ after).addresses)
    (mentioned : ∀ other ∈ after.mentions, other = .variadic ∨ ∃ typeId, other = .type typeId)
    (fits : ∀ entry ∈ after.entries, entry.2.Fits entry.1) (unlinked : after.unlinked = []) :
    Holds base s' (said ++ after) (place.update address ⟨s.graph.nodes.length⟩) := by
  have grows : place.Extends (place.update address ⟨s.graph.nodes.length⟩) :=
    Place.extends_update fresh
  have grown : s.graph.Extends s'.graph := graph ▸ Graph.extends_append s.graph [held]
  have length : s'.graph.nodes.length = s.graph.nodes.length + 1 := by simp [graph]
  have old : ∀ other id, other ≠ address →
      place.update address ⟨s.graph.nodes.length⟩ other = some id → place other = some id :=
    fun other id different held => (Place.update_ne different).symm.trans held
  constructor
  · exact holds.extends_.trans grown
  · exact type
  · exact variadic
  · intro first second id placed placed'
    by_cases own : first = address
    · subst own
      rw [Place.update_same] at placed
      cases placed
      by_cases same : second = first
      · exact same.symm
      · have inside := (holds.new second _ (old second _ same placed')).2
        exact absurd inside (lt_irrefl _)
    · by_cases other : second = address
      · subst other
        rw [Place.update_same] at placed'
        cases placed'
        have inside := (holds.new first _ (old first _ own placed)).2
        exact absurd inside (lt_irrefl _)
      · exact holds.injective first second id (old first id own placed)
          (old second id other placed')
  · intro other id placed
    by_cases same : other = address
    · subst same
      rw [Place.update_same] at placed
      cases placed
      have start := holds.extends_.length
      refine ⟨start, ?_⟩
      rw [length]
      exact Nat.lt_succ_self _
    · have inside := holds.new other id (old other id same placed)
      exact ⟨inside.1, by omega⟩
  · intro other id placed
    by_cases same : other = address
    · subst same
      rw [Place.update_same] at placed
      cases placed
      rw [graph, List.getElem?_append_right (le_refl _), own]
      cases kept : (said ++ after).content? other with
      | none => simp
      | some content => simp [grows.node_eq (references content kept)]
    · have before := old other id same placed
      have inside := (holds.new other id before).2
      rw [graph, List.getElem?_append_left inside, holds.slot other id before, others other same]
      cases kept : said.content? other with
      | none => rfl
      | some content => simp [grows.node_eq (holds.closed other content kept)]
  · intro other content kept reference among
    by_cases same : other = address
    · subst same
      exact grows.placed (references content kept reference among)
    · rw [others other same] at kept
      exact grows.placed (holds.closed other content kept reference among)
  · intro other
    rw [Contents.knows_append, known, ← holds.known]
    by_cases same : other = address
    · subst same
      simp
    · simp [Place.update_ne same, same]
  · intro id start inside
    by_cases last : id.ix < s.graph.nodes.length
    · rcases holds.made id start last with ⟨other, placed⟩ | ⟨node, content, among, got, makes⟩
      · exact .inl ⟨other, grows other id placed⟩
      · refine .inr ⟨node, content, ?_, grown.got got, grows.makes makes⟩
        rw [Contents.unlinked_append]
        exact List.mem_append_left _ among
    · left
      refine ⟨address, ?_⟩
      rw [Place.update_same]
      have same : id.ix = s.graph.nodes.length := by omega
      rw [← same]
  · exact unique
  · exact variadicImplicit
  · intro other among
    rw [Contents.mentions_append, List.mem_append] at among
    exact among.elim (holds.mentioned other) (mentioned other)
  · intro symbolId
    rw [symbols, holds.declared, Contents.declarations_append, declarations, List.append_nil]
    cases kept : said.declarations.lookup symbolId with
    | none => rfl
    | some declaration =>
      simp [grows.same (holds.declaredPlaced symbolId declaration.1 declaration.2 kept).1]
  · intro symbolId type name kept
    rw [Contents.declarations_append, declarations, List.append_nil] at kept
    have before := holds.declaredPlaced symbolId type name kept
    exact ⟨grows.placed before.1, before.2⟩
  · intro entry among
    exact (List.mem_append.mp among).elim (holds.fits entry) (fits entry)
  · rw [Contents.unlinked_append, unlinked, List.append_nil]
    exact holds.unlinkedFits

/-- Nothing more is said of any address. -/
theorem more (holds : Holds base s said place) (silent : after.entries = [])
    (kept : ∀ ix < s.graph.nodes.length, s'.graph.nodes[ix]? = s.graph.nodes[ix]?)
    (length : s.graph.nodes.length ≤ s'.graph.nodes.length)
    (typeIds : s'.typeIds = s.typeIds) (variadic : s'.variadic = s.variadic)
    (mentioned : ∀ address ∈ after.mentions, place address ≠ none ∧
      (address = .variadic ∨ ∃ typeId, address = .type typeId))
    (made : ∀ id : Id, s.graph.nodes.length ≤ id.ix → id.ix < s'.graph.nodes.length →
      ∃ node, ∃ content ∈ after.unlinked, s'.graph.get id = .ok node ∧ place.Makes content node)
    (declared : ∀ symbolId, s'.symbolIdAndFullName.lookup symbolId =
      ((said ++ after).declarations.lookup symbolId).map fun declaration =>
        (place.at_ declaration.1, declaration.2))
    (declaredPlaced : ∀ symbolId type name,
      (said ++ after).declarations.lookup symbolId = some (type, name) →
        place type ≠ none ∧ type.IsType)
    (unlinkedFits : ∀ content ∈ after.unlinked, content.Fits (.part .function .document 0)) :
    Holds base s' (said ++ after) place := by
  have contents := fun address => @Contents.content?_append_of_silent said after silent address
  have addresses := @Contents.addresses_append_of_silent said after silent
  have grown : s.graph.Extends s'.graph := by
    refine ⟨length, fun ix node held => ?_⟩
    rw [kept ix (List.getElem?_eq_some_iff.mp held).1]
    exact held
  constructor
  · exact holds.extends_.trans grown
  · rw [typeIds]
    exact holds.type
  · exact variadic.trans holds.variadic
  · exact holds.injective
  · intro address id held
    have inside := holds.new address id held
    exact ⟨inside.1, inside.2.trans_le length⟩
  · intro address id held
    rw [kept _ (holds.new address id held).2, contents, holds.slot address id held]
  · intro address content said
    rw [contents] at said
    exact holds.closed address content said
  · intro address
    rw [Contents.Knows, addresses, holds.known, Contents.Knows, Contents.mentions_append,
      List.mem_append]
    constructor
    · rintro (before | present)
      · exact .inl (.inl before)
      · exact .inr present
    · rintro ((before | own) | present)
      · exact .inl before
      · exact (holds.known address).mp (mentioned address own).1
      · exact .inr present
  · intro id start inside
    rw [Contents.unlinked_append]
    by_cases old : id.ix < s.graph.nodes.length
    · rcases holds.made id start old with placed | ⟨node, content, among, got, makes⟩
      · exact .inl placed
      · exact .inr ⟨node, content, List.mem_append_left _ among, grown.got got, makes⟩
    · obtain ⟨node, content, among, got, makes⟩ := made id (not_lt.mp old) inside
      exact .inr ⟨node, content, List.mem_append_right _ among, got, makes⟩
  · rw [addresses]
    exact holds.unique
  · rw [addresses]
    exact holds.variadicImplicit
  · intro address among
    rcases List.mem_append.mp among with before | own
    · exact holds.mentioned address before
    · exact (mentioned address own).2
  · exact declared
  · exact declaredPlaced
  · rw [Contents.entries_append, silent, List.append_nil]
    exact holds.fits
  · intro content among
    exact (List.mem_append.mp among).elim (holds.unlinkedFits content) (unlinkedFits content)

theorem declarations_same (holds : Holds base s said place) (silent : after.declarations = []) :
    (∀ symbolId, s.symbolIdAndFullName.lookup symbolId =
      ((said ++ after).declarations.lookup symbolId).map fun declaration =>
        (place.at_ declaration.1, declaration.2)) ∧
    ∀ symbolId type name,
      (said ++ after).declarations.lookup symbolId = some (type, name) →
        place type ≠ none ∧ type.IsType := by
  rw [Contents.declarations_append, silent, List.append_nil]
  exact ⟨holds.declared, holds.declaredPlaced⟩

/-- Mentioning what has an id changes nothing. -/
theorem mention (holds : Holds base s said place) (placed : place address ≠ none)
    (mentioned : address = .variadic ∨ ∃ typeId, address = .type typeId) :
    Holds base s (said ++ { mentions := [address] }) place := by
  have declarations := @declarations_same _ _ _ { mentions := [address] } _ holds rfl
  apply holds.more rfl (fun _ _ => rfl) (le_refl _) rfl rfl
  · intro other among
    cases List.mem_singleton.mp among
    exact ⟨placed, mentioned⟩
  · intro id start inside
    omega
  · exact declarations.1
  · exact declarations.2
  · exact List.forall_mem_nil _

/-- A node that nothing refers to. -/
theorem unlinked (holds : Holds base s said place) (makes : place.Makes content node)
    (fits : content.Fits (.part .function .document 0)) :
    Holds base { s with graph := ⟨s.graph.nodes ++ [some node]⟩ }
      (said ++ { unlinked := [content] }) place := by
  have declarations := @declarations_same _ _ _ { unlinked := [content] } _ holds rfl
  apply holds.more rfl
  · intro ix inside
    exact List.getElem?_append_left inside
  · rw [List.length_append]
    omega
  · rfl
  · rfl
  · exact List.forall_mem_nil _
  · intro id start inside
    refine ⟨node, content, List.mem_singleton_self _, ?_, makes⟩
    rw [List.length_append, List.length_singleton] at inside
    have last : id.ix = s.graph.nodes.length := by omega
    simp [Graph.get, last]
  · exact declarations.1
  · exact declarations.2
  · intro other among
    cases List.mem_singleton.mp among
    exact fits

/-- The first declaration for an ELF symbol id. -/
theorem declare (holds : Holds base s said place) {symbolId name : String}
    (fresh : said.declarations.lookup symbolId = none) (placed : place address = some id)
    (type : address.IsType) :
    Holds base { s with
        symbolIdAndFullName := Emplace.emplace s.symbolIdAndFullName symbolId (id, name) }
      (said ++ { declarations := [(symbolId, address, name)] }) place := by
  have unknown : s.symbolIdAndFullName.lookup symbolId = none := by
    rw [holds.declared, fresh]
    rfl
  have lookup : ∀ other, (said ++ { declarations := [(symbolId, address, name)] } :
      Contents).declarations.lookup other =
        if other = symbolId then some (address, name) else said.declarations.lookup other := by
    intro other
    rw [Contents.declarations_append, List.lookup_append]
    by_cases same : other = symbolId
    · subst same
      simp [fresh]
    · have different : (other == symbolId) = false := beq_eq_false_iff_ne.mpr same
      simp [List.lookup_cons, same, different]
  apply holds.more rfl
  · exact fun _ _ => rfl
  · exact le_refl _
  · rfl
  · rfl
  · exact List.forall_mem_nil _
  · intro id start inside
    exact absurd inside (not_lt.mpr start)
  · intro other
    rw [lookup]
    by_cases same : other = symbolId
    · subst same
      rw [if_pos rfl, Emplace.lookup_emplace_new unknown]
      simp [Place.at_, placed]
    · rw [if_neg same, Emplace.lookup_emplace_ne same, holds.declared]
  · intro other declared fullName kept
    rw [lookup] at kept
    split at kept
    · cases kept
      rw [placed]
      exact ⟨Option.some_ne_none _, type⟩
    · exact holds.declaredPlaced other _ fullName kept
  · exact List.forall_mem_nil _

/-- A type that has an id is defined. -/
theorem set (holds : Holds base s said place) (placed : place address = some id)
    (fresh : address ∉ said.addresses) (explicit : address ≠ .variadic)
    (references : ∀ reference ∈ content.references, place reference ≠ none)
    (fits : content.Fits address)
    (graph : s'.graph = ⟨s.graph.nodes.set id.ix (some (content.node place.at_))⟩)
    (same : s' = { s with graph := s'.graph }) :
    Holds base s' (said ++ { entries := [(address, content)] }) place := by
  have empty : s.graph.nodes[id.ix]? = some none := by
    rw [holds.slot address id placed, Contents.content?, if_neg explicit,
      Contents.lookup_eq_none_iff.mpr fresh]
    rfl
  have grown : s.graph.Extends s'.graph := graph ▸ Graph.extends_set empty _
  have others : ∀ other, other ≠ address →
      (said ++ { entries := [(address, content)] } : Contents).content? other =
        said.content? other := by
    intro other different
    apply Contents.content?_append_of_absent
    simpa [Contents.addresses] using different
  have own : (said ++ { entries := [(address, content)] } : Contents).content? address =
      some content := by
    rw [Contents.content?, if_neg explicit, Contents.entries_append, List.lookup_append,
      Contents.lookup_eq_none_iff.mpr fresh]
    simp
  have mentions : (said ++ { entries := [(address, content)] } : Contents).mentions =
      said.mentions := List.append_nil _
  have unlinked : (said ++ { entries := [(address, content)] } : Contents).unlinked =
      said.unlinked := List.append_nil _
  have declarations : (said ++ { entries := [(address, content)] } : Contents).declarations =
      said.declarations := List.append_nil _
  rw [same]
  exact {
    extends_ := holds.extends_.trans grown
    type := holds.type
    variadic := holds.variadic
    injective := holds.injective
    new := fun other id held => by
      have inside := holds.new other id held
      rw [graph]
      simpa using inside
    slot := by
      intro other id' held
      by_cases here : other = address
      · subst here
        cases placed.symm.trans held
        rw [graph, own, List.getElem?_set_self]
        · rfl
        · exact (holds.new _ _ held).2
      · have apart : id.ix ≠ id'.ix := by
          intro equal
          apply here
          exact holds.injective other address id' held
            (by rw [placed]; cases id; cases id'; cases equal; rfl)
        rw [graph, others other here, List.getElem?_set_ne apart, holds.slot other id' held]
    closed := by
      intro other content' kept
      by_cases here : other = address
      · subst here
        rw [own] at kept
        cases kept
        exact references
      · rw [others other here] at kept
        exact holds.closed other content' kept
    known := by
      intro other
      rw [Contents.knows_append, ← holds.known]
      constructor
      · exact .inl
      · rintro (known | none | among)
        · exact known
        · cases none
        · cases List.mem_singleton.mp among
          rw [placed]
          exact Option.some_ne_none id
    made := by
      intro id' start inside
      rw [unlinked]
      have inside' : id'.ix < s.graph.nodes.length := by
        rw [graph] at inside
        simpa using inside
      rcases holds.made id' start inside' with placed | ⟨node, content, among, got, makes⟩
      · exact .inl placed
      · exact .inr ⟨node, content, among, grown.got got, makes⟩
    unique := by
      rw [Contents.addresses_append]
      exact List.nodup_append'.mpr ⟨holds.unique, List.nodup_singleton _,
        List.disjoint_singleton.mpr fresh⟩
    variadicImplicit := by
      rw [Contents.addresses_append, List.mem_append, not_or]
      refine ⟨holds.variadicImplicit, ?_⟩
      simpa [Contents.addresses] using explicit.symm
    mentioned := mentions ▸ holds.mentioned
    declared := declarations ▸ holds.declared
    declaredPlaced := declarations ▸ holds.declaredPlaced
    fits := by
      intro entry among
      rcases List.mem_append.mp among with before | own
      · exact holds.fits entry before
      · cases List.mem_singleton.mp own
        exact fits
    unlinkedFits := unlinked ▸ holds.unlinkedFits }

end Holds

end Stg.AbiXml
