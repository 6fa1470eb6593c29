import Stg.AbiXml.Closed
import Stg.Btf.Cycles

set_option autoImplicit false

/- When the graph that is read has no cycle that a walk would go round. -/
namespace Stg

open Relation (TransGen)

namespace AbiXml

/-- What a qualifier qualifies. -/
def Content.Qualifies : Content → Address → Prop
  | .qualified _ type, address => type = address
  | _, _ => False

/-- What a typedef gives another name to. -/
def Content.Renames : Content → Address → Prop
  | .typedef _ type, address => type = address
  | _, _ => False

namespace Contents

variable (contents : Contents)

/-- The type of an anonymous member of an anonymous aggregate. -/
def Encloses : Content → Address → Prop
  | .structUnion _ name (some definition), address =>
    name = "" ∧ ∃ member ∈ definition.members, ∃ offset,
      contents.content? member = some (.member "" address offset)
  | _, _ => False

/-- No references of one sort go round. -/
abbrev Acyclic : Prop :=
  NoneGoesRound (StepOf contents.content? Content.Qualifies) (StepOf contents.content? Content.Renames)
    (StepOf contents.content? contents.Encloses)

end Contents

variable {base : Graph} {s : Corpus} {said : Contents} {place : Place} {address : Address}
  {id : Id} {content : Content} {node : Node}

/-- What is said of an address says of a node. -/
abbrev Contents.Says (said : Contents) (place : Place) (address : Address) (content : Content)
    (node : Node) : Prop :=
  said.content? address = some content ∧ node = content.node place.at_

abbrev Place.Stands (place : Place) (address : Address) (id : Id) : Prop := place address = some id

/-- Nothing but functions is without an address. -/
theorem Content.kind_unlinked (fits : content.Fits (.part .function .document 0)) :
    (content.node place.at_).kind = .function := by
  cases content with
  | function => rfl
  | structUnion kind name definition =>
    cases definition with
    | none => cases fits
    | some definition => cases fits.1
  | void | integer | enumeration | variadic => cases fits
  | pointerReference | typedef | baseClass | member | method | elfSymbol | symbols => cases fits.1
  | qualified | array =>
    rcases fits.1 with defined | plays
    · cases defined
    · cases plays

theorem Content.kind_of_not_part (fits : content.Fits address) (member : ¬ address.Plays .member)
    (base : ¬ address.Plays .baseClass) :
    (content.node place.at_).kind ≠ .member ∧ (content.node place.at_).kind ≠ .baseClass := by
  cases content with
  | member => exact absurd fits.1 member
  | baseClass => exact absurd fits.1 base
  | _ => exact ⟨nofun, nofun⟩

theorem Address.isType_not_part (type : address.IsType) :
    ¬ address.Plays .member ∧ ¬ address.Plays .baseClass := by
  cases address with
  | type => exact ⟨id, id⟩
  | variadic => exact ⟨id, id⟩
  | part role =>
    cases role with
    | chain | function => exact ⟨nofun, nofun⟩
    | _ => cases type

theorem Address.symbol_not_part (plays : address.Plays .symbol) :
    ¬ address.Plays .member ∧ ¬ address.Plays .baseClass := by
  cases address with
  | type => cases plays
  | variadic => cases plays
  | part role =>
    cases (show role = _ from plays)
    exact ⟨nofun, nofun⟩

/-- What is no aggregate refers to types and symbols only. -/
theorem Content.type_of_reference (fits : content.Fits address)
    (aggregate : (content.node place.at_).kind ≠ .structUnion) {other : Address}
    (among : other ∈ content.references) :
    ¬ other.Plays .member ∧ ¬ other.Plays .baseClass := by
  cases content with
  | structUnion => exact absurd rfl aggregate
  | void | integer | enumeration | variadic => cases among
  | pointerReference | typedef | qualified | array | baseClass | member | method =>
    cases List.mem_singleton.mp among
    exact Address.isType_not_part fits.2
  | function returnType parameters =>
    rcases List.mem_cons.mp among with rfl | among
    · exact Address.isType_not_part fits.2.1
    · obtain ⟨parameter, listed, rfl⟩ := List.mem_map.mp among
      exact Address.isType_not_part (fits.2.2 parameter listed)
  | elfSymbol => exact Address.isType_not_part (fits.2 other among)
  | symbols =>
    obtain ⟨symbol, listed, rfl⟩ := List.mem_map.mp among
    exact Address.symbol_not_part (fits.2 symbol listed)

theorem Content.kind_member (fits : content.Fits address) (plays : address.Plays .member) :
    (content.node place.at_).kind = .member := by
  cases address with
  | type => cases plays
  | variadic => cases plays
  | part role =>
    cases (show role = _ from plays)
    cases content with
    | member => rfl
    | structUnion kind name definition =>
      cases definition with
      | none => cases fits
      | some definition => cases fits.1
    | void | integer | enumeration | variadic => cases fits
    | pointerReference | typedef | baseClass | method | elfSymbol | symbols => cases fits.1
    | qualified | array | function =>
      rcases fits.1 with defined | plays
      · cases defined
      · cases plays

section

variable (holds : Holds base s said place)

include holds

theorem Holds.content_fits (known : said.content? address = some content) :
    content.Fits address := by
  unfold Contents.content? at known
  split at known
  · cases known
    assumption
  · exact holds.fits _ (Lookup.mem_of_lookup known)

/-- A new node is what is said of its address, or a function that nothing refers to. -/
theorem Holds.new_node (new : base.nodes.length ≤ id.ix) (got : s.graph.get id = .ok node) :
    (∃ address content, place address = some id ∧ said.content? address = some content ∧
        node = content.node place.at_) ∨
      ∃ content, content.Fits (.part .function .document 0) ∧ place.Makes content node := by
  have inside : id.ix < s.graph.nodes.length :=
    (List.getElem?_eq_some_iff.mp (Graph.get_eq_ok.mp got)).1
  rcases holds.made id new inside with ⟨address, placed⟩ | ⟨node', content, among, got', makes⟩
  · obtain ⟨content, known, same⟩ := holds.content placed got
    exact .inl ⟨address, content, placed, known, same⟩
  · cases got.symm.trans got'
    exact .inr ⟨content, holds.unlinkedFits content among, makes⟩

theorem Holds.account : s.graph.Account (fun id => base.nodes.length ≤ id.ix) said.content?
    (said.Says place) place.Stands where
  entry address id node placed got _ := by
    obtain ⟨content, known, same⟩ := holds.content placed got
    exact ⟨content, known, known, same⟩
  node address content id known placed := ⟨_, holds.get placed known, known, rfl⟩
  key address other id _ _ _ placed placed' := holds.injective address other id placed placed'
  element _ _ _ _ _ placed placed' := Option.some.inj (placed.symm.trans placed')
  keyed id node new got walked := by
    rcases holds.new_node new got with ⟨address, _, placed, _⟩ | ⟨content, fits, makes⟩
    · exact ⟨address, placed⟩
    · have kind := @Content.kind_unlinked place content fits
      rw [← makes.node] at kind
      simp [kind, Node.Kind.Walked] at walked
  described address content known := by
    refine ⟨_, ⟨known, rfl⟩, fun walked => ?_⟩
    have explicit : address ≠ .variadic := by
      rintro rfl
      rw [Contents.content?, if_pos rfl] at known
      cases known
      simp [Content.node, Node.kind, Node.Kind.Walked] at walked
    rw [Contents.content?, if_neg explicit] at known
    have knows := (holds.known address).mpr
      (.inr (List.mem_map_of_mem (Lookup.mem_of_lookup known)))
    obtain ⟨id, placed⟩ := Option.ne_none_iff_exists'.mp knows
    exact ⟨id, (holds.new address id placed).1, placed⟩

/- The three sorts. -/

theorem Holds.placed_at (known : said.content? address = some content) {reference : Address}
    (among : reference ∈ content.references) : place reference = some (place.at_ reference) := by
  obtain ⟨id, placed⟩ := Option.ne_none_iff_exists'.mp (holds.closed address content known _ among)
  rw [placed, Place.at_, placed]
  rfl

theorem Holds.agree_qualifiers :
    SortAgrees (said.Says place) place.Stands Content.Qualifies Node.QualifierOut where
  forward := by
    rintro address content _ id ⟨known, rfl⟩ ⟨node, same, rfl⟩
    cases content with
    | qualified qualifier type =>
      cases same
      exact ⟨type, rfl, holds.placed_at known (List.mem_singleton_self _)⟩
    | _ => cases same
  backward := by
    rintro address content _ next ⟨known, rfl⟩ steps
    cases content with
    | qualified qualifier type =>
      cases steps
      exact ⟨_, ⟨_, rfl, rfl⟩, holds.placed_at known (List.mem_singleton_self _)⟩
    | _ => cases steps

theorem Holds.agree_typedefs :
    SortAgrees (said.Says place) place.Stands Content.Renames Node.TypedefOut where
  forward := by
    rintro address content _ id ⟨known, rfl⟩ ⟨node, same, rfl⟩
    cases content with
    | typedef name type =>
      cases same
      exact ⟨type, rfl, holds.placed_at known (List.mem_singleton_self _)⟩
    | _ => cases same
  backward := by
    rintro address content _ next ⟨known, rfl⟩ steps
    cases content with
    | typedef name type =>
      cases steps
      exact ⟨_, ⟨_, rfl, rfl⟩, holds.placed_at known (List.mem_singleton_self _)⟩
    | _ => cases steps

/-- The members of an aggregate have got ids. -/
theorem Holds.placed_member {kind : StructUnion.Kind} {name : String} {definition : Aggregate}
    (known : said.content? address = some (.structUnion kind name (some definition)))
    {member : Address} (among : member ∈ definition.members) :
    place member = some (place.at_ member) :=
  holds.placed_at known (by simp [Content.references, among])

theorem Holds.agree_keys :
    SortAgrees (said.Says place) place.Stands said.Encloses (Node.AnonymousOut s.graph) where
  forward := by
    rintro address content _ id ⟨known, rfl⟩
      ⟨node, definition, member, same, named, defined, memberId, among,
      got, anonymous, rfl⟩
    cases content with
    | structUnion kind name given =>
      cases same
      cases given with
      | none => cases defined
      | some given =>
        cases defined
        obtain ⟨own, listed, rfl⟩ := List.mem_map.mp among
        have placed := holds.placed_member known listed
        obtain ⟨content, known', made⟩ := holds.content placed got
        cases content with
        | member name type offset =>
          cases made
          cases anonymous
          exact ⟨type, ⟨named, own, listed, offset, known'⟩,
            holds.placed_at known' (List.mem_singleton_self _)⟩
        | _ => cases made
    | _ => cases same
  backward := by
    rintro address content _ next ⟨known, rfl⟩ steps
    cases content with
    | structUnion kind name given =>
      cases given with
      | none => cases steps
      | some definition =>
        obtain ⟨named, member, among, offset, known'⟩ := steps
        have placed := holds.placed_member known among
        have got := holds.get placed known'
        refine ⟨place.at_ next, ⟨_, _, _, rfl, named, rfl, place.at_ member, ?_, got, rfl, rfl⟩,
          holds.placed_at known' (List.mem_singleton_self _)⟩
        exact List.mem_map_of_mem among
    | _ => cases steps

theorem Holds.acyclic_iff :
    s.graph.Acyclic (fun id => base.nodes.length ≤ id.ix) ↔ said.Acyclic :=
  holds.account.acyclic_iff holds.agree_qualifiers holds.agree_typedefs holds.agree_keys

/-- What a new node refers to is the place of what its content refers to. -/
theorem Holds.reference (new : base.nodes.length ≤ id.ix) (got : s.graph.get id = .ok node)
    {next : Id} (among : next ∈ node.references) :
    ∃ (content : Content) (address other : Address), content.Fits address ∧
      node = content.node place.at_ ∧ other ∈ content.references ∧ place other = some next := by
  rcases holds.new_node new got with ⟨address, content, _, known, rfl⟩ | ⟨content, fits, makes⟩
  · rw [Content.node_references] at among
    obtain ⟨other, listed, rfl⟩ := List.mem_map.mp among
    exact ⟨content, address, other, holds.content_fits known, rfl, listed,
      holds.placed_at known listed⟩
  · rw [makes.node, Content.node_references] at among
    obtain ⟨other, listed, rfl⟩ := List.mem_map.mp among
    obtain ⟨id', placed⟩ := Option.ne_none_iff_exists'.mp (makes.references other listed)
    have found : place.at_ other = id' := by
      rw [Place.at_, placed]
      rfl
    exact ⟨content, _, other, fits, makes.node, listed, found ▸ placed⟩

theorem Holds.part : s.graph.Part (fun id => base.nodes.length ≤ id.ix) where
  closed := by
    intro id node new got reference among
    obtain ⟨_, _, other, _, _, _, placed⟩ := holds.reference new got among
    exact (holds.new other reference placed).1
  members := by
    intro id node definition new got defined memberId among member gotMember
    have refers : memberId ∈ (Node.structUnion node).references := by
      simp [Node.references, defined, among]
    rcases holds.new_node new got with ⟨address, content, placed, known, same⟩ |
      ⟨content, fits, makes⟩
    · cases content with
      | structUnion kind name given =>
        cases same
        cases given with
        | none => cases defined
        | some given =>
          cases defined
          obtain ⟨own, listed, rfl⟩ := List.mem_map.mp among
          have fits := holds.content_fits known
          obtain ⟨content, known', rfl⟩ :=
            holds.content (holds.placed_member known listed) gotMember
          exact Content.kind_member (holds.content_fits known') (fits.2.2.2 own listed)
      | _ => cases same
    · have kind := @Content.kind_unlinked place content fits
      rw [← makes.node] at kind
      cases kind
  types := by
    intro id node new got aggregate reference among type gotType
    obtain ⟨content, address, other, fits, rfl, listed, placed⟩ := holds.reference new got among
    obtain ⟨content', known', rfl⟩ := holds.content placed gotType
    have apart := Content.type_of_reference fits aggregate listed
    exact Content.kind_of_not_part (holds.content_fits known') apart.1 apart.2

end

/-- The walks over what an accepted document makes end, and none of it goes round, if and
only if its definitions do not go round. -/
theorem processRoot_walks_iff (base : Graph) (iteration : Iteration) (fuel : Nat)
    (element : Element) (root : Id) (s : Corpus)
    (accepted : (processRoot iteration fuel element).run { graph := base } = .ok root s) :
    ∃ address contents, read iteration element = .ok (address, contents) ∧
      (s.graph.WalksEnd (fun id => base.nodes.length ≤ id.ix) ∧
          s.graph.Acyclic (fun id => base.nodes.length ≤ id.ix) ↔
        contents.Acyclic) := by
  obtain ⟨address, contents, place, means, _, _, holds⟩ :=
    (processRoot_reads base iteration fuel element).returns accepted
  refine ⟨address, contents, means, ?_⟩
  have acyclic_iff : s.graph.Acyclic (fun id => base.nodes.length ≤ id.ix) ↔ contents.Acyclic :=
    holds.acyclic_iff
  rw [acyclic_iff]
  constructor
  · exact fun both => both.2
  · intro acyclic
    exact ⟨(acyclic_iff.mpr acyclic).walksEnd holds.part, acyclic⟩

end AbiXml

/-- The walks over what either reader makes of an accepted input end, and none of it goes
round, if and only if the records or the definitions do not go round. -/
theorem accepted_walks_iff (base : Graph) (fuel : Nat) :
    (∀ (data : List UInt8) (verbose : Bool) (root : Id) (s : Btf.Structs), data.length < fuel →
      (Btf.process data fuel verbose).run { graph := base } = .ok root s →
      ∃ records, Btf.Sectioned data records ∧
        (s.graph.WalksEnd (fun id => base.nodes.length ≤ id.ix) ∧
            s.graph.Acyclic (fun id => base.nodes.length ≤ id.ix) ↔
          Btf.RecordsAcyclic records)) ∧
    ∀ (element : AbiXml.Element) (iteration : AbiXml.Iteration) (root : Id) (s : AbiXml.Corpus),
      (AbiXml.processRoot iteration fuel element).run { graph := base } = .ok root s →
      ∃ address contents, AbiXml.read iteration element = .ok (address, contents) ∧
        (s.graph.WalksEnd (fun id => base.nodes.length ≤ id.ix) ∧
            s.graph.Acyclic (fun id => base.nodes.length ≤ id.ix) ↔
          contents.Acyclic) :=
  ⟨fun data verbose root s enough accepted =>
      Btf.process_walks_iff data base verbose fuel root s enough accepted,
    fun element iteration root s accepted =>
      AbiXml.processRoot_walks_iff base iteration fuel element root s accepted⟩

/-- A type that is its own qualification. -/
def AbiXml.selfQualified : AbiXml.Element :=
  AbiXml.variableOf "t" [.mk "qualified-type-def" [("id", "t"), ("type-id", "t"), ("const", "yes")] []]

theorem accepted_walks_selfQualified :
    (∃ (root : Id) (s : Btf.Structs) (records : List Btf.Record),
      (Btf.process Btf.selfQualified 100 false).run { graph := ⟨[]⟩ } = .ok root s ∧
      (s.graph.WalksEnd (fun id => 0 ≤ id.ix) ∧ s.graph.Acyclic (fun id => 0 ≤ id.ix) ↔
        Btf.RecordsAcyclic records)) ∧
    ∃ (root : Id) (s : AbiXml.Corpus) (contents : AbiXml.Contents),
      (AbiXml.processRoot .inOrder 0 AbiXml.selfQualified).run { graph := ⟨[]⟩ } = .ok root s ∧
      (s.graph.WalksEnd (fun id => 0 ≤ id.ix) ∧ s.graph.Acyclic (fun id => 0 ≤ id.ix) ↔
        contents.Acyclic) := by
  constructor
  · obtain ⟨s, ran, _⟩ := returns_of_made Btf.selfQualified_made
    obtain ⟨records, _, walks⟩ := (accepted_walks_iff ⟨[]⟩ 100).1 Btf.selfQualified false _ s
      (by decide +kernel) ran
    exact ⟨_, s, records, ran, walks⟩
  · obtain ⟨s, ran⟩ := AbiXml.returns_of_returned (show AbiXml.returned?
      ((AbiXml.processRoot .inOrder 0 AbiXml.selfQualified).run { graph := ⟨[]⟩ }) = some ⟨2⟩ by
        decide +kernel)
    obtain ⟨_, contents, _, walks⟩ := (accepted_walks_iff ⟨[]⟩ 0).2 _ .inOrder _ s ran
    exact ⟨_, s, contents, ran, walks⟩

end Stg
