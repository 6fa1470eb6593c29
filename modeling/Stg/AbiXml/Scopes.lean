import Stg.AbiXml.Handlers

set_option autoImplicit false

/- Structs, unions and scopes: the recursion over the elements reads what they mean. -/
namespace Stg.AbiXml

variable {place place' : Place} {id : Id} {typeId scopeName : String} {owner : Owner}

/-- The id is that of a node with the role. -/
def LinksPart (role : Role) (place : Place) (id : Id) (address : Address) : Prop :=
  place address = some id ∧ address.Plays role

theorem LinksPart.mono {role : Role} {address : Address} (grows : place.Extends place')
    (linked : LinksPart role place id address) : LinksPart role place' id address :=
  ⟨grows _ _ linked.1, linked.2⟩

structure LinksMembers (place : Place) (made : Members) (meant : Meaning.Members) : Prop where
  baseClasses : List.Forall₂ (LinksPart .baseClass place) made.baseClasses meant.baseClasses
  methods : List.Forall₂ (LinksPart .method place) made.methods meant.methods
  members : List.Forall₂ (LinksPart .member place) made.members meant.members

theorem LinksMembers.mono {made : Members} {meant : Meaning.Members}
    (grows : place.Extends place') (links : LinksMembers place made meant) :
    LinksMembers place' made meant where
  baseClasses := links.baseClasses.imp fun _ _ held => held.mono grows
  methods := links.methods.imp fun _ _ held => held.mono grows
  members := links.members.imp fun _ _ held => held.mono grows

theorem forall₂_linksPart {role : Role} {ids : List Id} {addresses : List Address}
    (linked : List.Forall₂ (LinksPart role place) ids addresses) :
    ids = addresses.map place.at_ ∧ ∀ address ∈ addresses, place address ≠ none ∧
      address.Plays role := by
  induction linked with
  | nil => exact ⟨rfl, List.forall_mem_nil _⟩
  | @cons id address ids addresses first _ ih =>
    have same : place.at_ address = id := by
      rw [Place.at_, first.1]
      rfl
    constructor
    · rw [List.map_cons, same, ← ih.1]
    · intro other among
      rcases List.mem_cons.mp among with rfl | later
      · rw [first.1]
        exact ⟨Option.some_ne_none _, first.2⟩
      · exact ih.2 other later

theorem makes_structUnion {made : Members} {meant : Meaning.Members} (kind : StructUnion.Kind)
    (name : String) (bytesize : UInt64) (links : LinksMembers place made meant) :
    MakesType place
      (.structUnion ⟨kind, name, some ⟨bytesize, made.baseClasses, made.methods, made.members⟩⟩)
      (.structUnion kind name
        (some ⟨bytesize, meant.baseClasses, meant.methods, meant.members⟩)) := by
  obtain ⟨bases, placedBases⟩ := forall₂_linksPart links.baseClasses
  obtain ⟨methods, placedMethods⟩ := forall₂_linksPart links.methods
  obtain ⟨members, placedMembers⟩ := forall₂_linksPart links.members
  refine ⟨⟨?_, ?_⟩, ?_⟩
  · simp only [Content.node, Aggregate.definition, Option.map_some, bases, methods, members]
  · intro reference among
    simp only [Content.references, List.mem_append] at among
    rcases among with (base | method) | member
    · exact (placedBases reference base).1
    · exact (placedMethods reference method).1
    · exact (placedMembers reference member).1
  · intro _
    exact ⟨trivial, fun base among => (placedBases base among).2,
      fun method among => (placedMethods method among).2,
      fun member among => (placedMembers member among).2⟩

/- Declarations. -/

theorem variableDecl_reads (decl : Element) :
    Reads place (processDecl scopeName true decl) (.variableDecl scopeName decl)
      (fun _ _ _ => True) := by
  unfold processDecl Meaning.variableDecl
  apply Reads.bind (Reads.ofExcept _)
  rintro name _ after _ ⟨rfl, _⟩
  dsimp only
  rw [if_pos rfl]
  apply Reads.bind (getEdge_notes decl)
  intro type address after' _ linked
  rw [← bind_pure (Meaning.declare _ _ _)]
  apply Reads.bind (linkSymbol_reads _ _ linked)
  intro _ _ _ _ _
  exact Reads.pure fun _ _ => trivial

theorem functionDecl_reads (corpus : Nat) (decl : Element) :
    Reads place (processDecl scopeName false decl) (.functionDecl corpus scopeName decl)
      (fun _ _ _ => True) := by
  unfold processDecl Meaning.functionDecl
  apply Reads.bind (Reads.ofExcept _)
  rintro name _ after _ ⟨rfl, _⟩
  dsimp only
  rw [if_neg Bool.false_ne_true]
  apply Reads.bind (makeFunctionType_notes decl)
  intro node content after' _ makes
  cases getAttribute decl "elf-symbol-id" with
  | some symbolId =>
    dsimp only
    apply Reads.bind (part_reads makes.1.1 (makes.2 _))
    intro type address after'' _ linked
    rw [← bind_pure (Meaning.declare _ _ _)]
    apply Reads.bind (linkSymbol_reads _ _ ⟨linked.1, Address.isType_of_plays (.inr linked.2)⟩)
    intro _ _ _ _ _
    exact Reads.pure fun _ _ => trivial
  | none =>
    dsimp only
    rw [← bind_pure (Meaning.unlinked content)]
    apply Reads.bind (unlinked_reads makes.1.1 (makes.2 _ _))
    intro type _ after'' _ _
    exact Reads.pure fun _ _ => trivial

/- Members. -/

theorem processBaseClass_reads (baseClass : Element) :
    Reads place (processBaseClass baseClass) (.baseClass owner baseClass)
      (LinksPart .baseClass) := by
  unfold processBaseClass Meaning.baseClass Mentions.baseClass
  rw [mentioning_bind, bind_assoc]
  apply Reads.bind (getEdge_notes baseClass)
  intro type address after _ linked
  rw [mentioning_bind, bind_assoc]
  apply Reads.bind (Notes.ofExcept _)
  rintro offset _ after' grows' ⟨rfl, _⟩
  rw [mentioning_bind, bind_assoc]
  apply Reads.bind (Notes.ofExcept _)
  rintro isVirtual _ after'' grows'' ⟨rfl, _⟩
  rw [mentioning_pure, pure_bind]
  have linked' := (linked.mono grows').mono grows''
  apply part_reads
  · apply makes_one linked' rfl
    rintro rfl
    rfl
  · exact fun _ => ⟨rfl, linked.2⟩

/-- The id of a member, if there is one. -/
def LinksMember (place : Place) (id : Option Id) (address : Option Address) : Prop :=
  List.Forall₂ (LinksPart .member place) id.toList address.toList

theorem processDataMember_reads (isStruct : Bool) (dataMember : Element) :
    Reads place (processDataMember scopeName isStruct dataMember)
      (.dataMember owner scopeName isStruct dataMember) LinksMember := by
  unfold processDataMember Meaning.dataMember
  apply Reads.bind (Reads.ofExcept _)
  rintro decl _ after _ ⟨rfl, _⟩
  apply Reads.bind (Reads.ofExcept _)
  rintro _ _ after' _ ⟨_, _⟩
  apply Reads.bind (Reads.ofExcept _)
  rintro isStatic _ after'' _ ⟨rfl, _⟩
  apply Reads.ite
  · intro _
    apply Reads.bind (variableDecl_reads decl)
    intro _ _ _ _ _
    exact Reads.pure fun _ _ => .nil
  · intro _
    unfold Mentions.dataMember
    rw [mentioning_bind, bind_assoc]
    apply Reads.bind (Notes.ofExcept _)
    rintro offset _ _ _ ⟨rfl, _⟩
    rw [mentioning_bind, bind_assoc]
    apply Reads.bind (Notes.ofExcept _)
    rintro name _ _ _ ⟨rfl, _⟩
    rw [mentioning_bind, bind_assoc]
    apply Reads.bind (getEdge_notes decl)
    intro type address later _ linked
    rw [mentioning_pure, pure_bind]
    have makes : later.Makes (.member name address offset) (.member ⟨name, type, offset, 0⟩) := by
      apply makes_one linked rfl
      rintro rfl
      rfl
    apply Reads.bind (part_reads makes fun _ => ⟨rfl, linked.2⟩)
    intro id address' last _ placed
    exact Reads.pure fun final further => .cons (LinksPart.mono further placed) .nil

theorem processMemberFunction_reads (method : Element) :
    Reads place (processMemberFunction scopeName method)
      (.memberFunction owner scopeName method) (LinksPart .method) := by
  unfold processMemberFunction Meaning.memberFunction
  apply Reads.bind (Reads.ofExcept _)
  rintro decl _ after _ ⟨rfl, _⟩
  apply Reads.bind (Reads.ofExcept _)
  rintro _ _ after' _ ⟨_, _⟩
  apply Reads.bind (Reads.ofExcept _)
  rintro mangledName _ _ _ ⟨rfl, _⟩
  apply Reads.bind (Reads.ofExcept _)
  rintro name _ later _ ⟨rfl, read⟩
  unfold processDecl
  rw [read, ofExcept_ok, pure_bind]
  dsimp only
  rw [if_neg Bool.false_ne_true, bind_assoc]
  apply Reads.bind (makeFunctionType_notes decl)
  intro node content after'' _ makes
  rw [bind_assoc]
  apply Reads.bind (part_reads makes.1.1 (makes.2 _))
  intro type address third _ linked
  have linkedType : LinksType third type address :=
    ⟨linked.1, Address.isType_of_plays (.inr linked.2)⟩
  rw [bind_assoc]
  apply Reads.bind (linkSymbol_reads _ _ linkedType)
  intro _ _ fourth grows4 _
  rw [pure_bind]
  apply Reads.bind (Reads.ofExcept _)
  rintro ⟨kind, vtableOffset⟩ _ fifth grows5 ⟨rfl, _⟩
  have linked' := (linkedType.mono grows4).mono grows5
  apply part_reads
  · apply makes_one linked' rfl
    rintro rfl
    rfl
  · exact fun _ => ⟨rfl, linked'.2⟩

/- Structs and unions. -/

/-- The loop over the members of an element reads what it means. -/
def ReadsMembers (place : Place)
    (process : String → Bool → StructUnion.Kind → Members → Reading Members)
    (members : String → Bool → StructUnion.Kind → Meaning.Members → Meaning Meaning.Members) :
    Prop :=
  ∀ after scopeName isStruct kind made meant, place.Extends after → LinksMembers after made meant →
    Reads after (process scopeName isStruct kind made) (members scopeName isStruct kind meant)
      LinksMembers

section

variable {process : String → Bool → StructUnion.Kind → Members → Reading Members}
  {members : String → Bool → StructUnion.Kind → Meaning.Members → Meaning Meaning.Members}

theorem processStructUnion_reads (isStruct : Bool) (element : Element)
    (readsMembers : ReadsMembers place process members) (placed : place (.type typeId) = some id) :
    Reads place (processStructUnion scopeName process id isStruct element)
      (.structUnion scopeName members (.type typeId) isStruct element) (fun _ _ _ => True) := by
  unfold processStructUnion Meaning.structUnion
  apply Reads.bind (Reads.ofExcept _)
  rintro attributes _ after grows ⟨rfl, _⟩
  apply Reads.ite
  · intro _
    apply define_reads (grows _ _ placed)
    · exact makes_none rfl rfl
    · trivial
  · intro _
    apply Reads.bind (Reads.ofExcept _)
    rintro bits _ after' grows' ⟨rfl, _⟩
    apply Reads.bind (readsMembers after' _ _ _ ⟨[], [], []⟩ ⟨[], [], []⟩ (grows.trans grows')
      ⟨.nil, .nil, .nil⟩)
    intro made meant after'' grows'' links
    have makes := makes_structUnion attributes.kind (attributes.fullName scopeName)
      ((bits + 7) / 8) links
    exact define_reads (grows'' _ _ (grows' _ _ (grows _ _ placed))) makes.1 (makes.2 typeId)

/-- What follows a definition is that it has been one. -/
theorem reads_then {α : Type} {call : Reading Unit} {meaning : Meaning Unit} (value : α)
    (reads : Reads place call meaning (fun _ _ _ => True)) :
    Reads place (do call; return value) (do meaning; return value)
      (fun _ known meant => known = meant) := by
  apply Reads.bind reads
  intro _ _ _ _ _
  exact Reads.pure fun _ _ => rfl

theorem processUserDefinedType_reads (decl : Element)
    (readsMembers : ReadsMembers place process members) (placed : place (.type typeId) = some id) :
    Reads place (processUserDefinedType scopeName process id decl)
      (.userDefinedType scopeName members (.type typeId) decl)
        (fun _ known meant => known = meant) := by
  unfold processUserDefinedType Meaning.userDefinedType
  apply Reads.ite
  · intro _
    exact reads_then true (processTypedef_reads decl placed)
  intro _
  apply Reads.ite
  · intro _
    exact reads_then true (processStructUnion_reads true decl readsMembers placed)
  intro _
  apply Reads.ite
  · intro _
    exact reads_then true (processStructUnion_reads false decl readsMembers placed)
  intro _
  apply Reads.ite
  · intro _
    exact reads_then true (processEnum_reads decl placed)
  · intro _
    exact Reads.pure fun _ _ => rfl

theorem processType_reads (element : Element) (readsMembers : ReadsMembers place process members)
    (placed : place (.type typeId) = some id) :
    Reads place (processType scopeName process id element)
      (.type owner scopeName members (.type typeId) element) (fun _ _ _ => True) := by
  unfold processType Meaning.type
  apply Reads.ite
  · intro _
    exact processFunctionType_reads element placed
  intro _
  apply Reads.ite
  · intro _
    exact processPointer_reads true element placed
  intro _
  apply Reads.ite
  · intro _
    exact processPointer_reads false element placed
  intro _
  apply Reads.ite
  · intro _
    exact processQualified_reads owner element placed
  intro _
  apply Reads.ite
  · intro _
    exact processArray_reads owner element placed
  intro _
  apply Reads.ite
  · intro _
    exact processTypeDecl_reads element placed
  · intro _
    apply Reads.bind (processUserDefinedType_reads element readsMembers placed)
    rintro known _ after _ rfl
    exact (Reads.check _ _).imp fun _ _ _ _ _ => trivial

end

/-- The slot of a type is set if and only if the type has been defined. -/
theorem Holds.isSet {base : Graph} {s : Corpus} {said : Contents}
    (holds : Holds base s said place) (placed : place (.type typeId) = some id) :
    s.graph.isSet id = .ok (decide (.type typeId ∈ said.addresses)) := by
  have slot := holds.slot _ _ placed
  rw [Contents.content?, if_neg (Address.type_ne_variadic typeId)] at slot
  rw [Graph.isSet, slot]
  by_cases defined : Address.type typeId ∈ said.addresses
  · obtain ⟨held, kept⟩ : ∃ held, said.entries.lookup (.type typeId) = some held :=
      Option.ne_none_iff_exists'.mp fun none => Contents.lookup_eq_none_iff.mp none defined
    simp [kept, defined]
  · simp [Contents.lookup_eq_none_iff.mpr defined, defined]

theorem unlessDefined_reads {define : Id → Reading Unit} {definition : Address → Meaning Unit}
    (reads : ∀ after id, place.Extends after → after (.type typeId) = some id →
      Reads after (define id) (definition (.type typeId)) (fun _ _ _ => True)) :
    Reads place (unlessDefined typeId define) (.unlessDefined typeId definition)
      (fun _ _ _ => True) := by
  unfold unlessDefined Meaning.unlessDefined
  apply Reads.bind (getNode_notes typeId)
  intro id _ after grows placed base s said before grows' holds
  apply EStateM.Ends.get_bind
  rw [holds.isSet (grows' _ _ placed), ofExcept_ok, pure_bind]
  by_cases defined : Address.type typeId ∈ said.addresses
  · have skipped : Meaning.unlessIn (.type typeId) (definition (.type typeId)) said =
        .ok ((), {}) := if_pos defined
    rw [if_pos (decide_eq_true defined), skipped]
    apply EStateM.Ends.pure
    refine ⟨(), {}, before, rfl, .refl _, trivial, ?_, .refl _⟩
    rwa [Contents.append_empty]
  · have same : Meaning.unlessIn (.type typeId) (definition (.type typeId)) said =
        definition (.type typeId) said := if_neg defined
    rw [if_neg (by simpa using defined), same]
    exact reads after id grows placed base s said before grows' holds

theorem processMemberDecl_reads
    {process : String → Bool → StructUnion.Kind → Members → Reading Members}
    {members : String → Bool → StructUnion.Kind → Meaning.Members → Meaning Meaning.Members}
    (decl : Element) (readsMembers : ReadsMembers place process members) :
    Reads place (processMemberDecl scopeName process decl) (.memberDecl scopeName members decl)
      (fun _ _ _ => True) := by
  unfold processMemberDecl Meaning.memberDecl
  apply Reads.bind (Reads.ofExcept _)
  rintro typeId _ after grows ⟨rfl, _⟩
  apply unlessDefined_reads
  intro after' id grows' placed
  have readsMembers' : ReadsMembers after' process members :=
    fun later scopeName isStruct kind made meant further linked =>
      readsMembers later scopeName isStruct kind made meant
        (grows.trans (grows'.trans further)) linked
  apply Reads.bind (processUserDefinedType_reads decl readsMembers' placed)
  rintro known _ _ _ rfl
  exact (Reads.check _ _).imp fun _ _ _ _ _ => trivial

/- The recursion over the elements. -/

mutual

theorem processMembers_reads (owner : Owner) (element : Element) (place : Place) :
    ReadsMembers place (processMembers element) (Meaning.members owner element) :=
  match element with
  | .mk _ _ children => by
    intro after scopeName isStruct kind made meant _ links
    unfold processMembers Meaning.members
    exact processChildren_reads owner children after scopeName isStruct kind made meant links

theorem processChildren_reads (owner : Owner) (children : List Element) (place : Place)
    (scopeName : String) (isStruct : Bool) (kind : StructUnion.Kind) (made : Members)
    (meant : Meaning.Members) (links : LinksMembers place made meant) :
    Reads place (processChildren children scopeName isStruct kind made)
      (Meaning.children owner children scopeName isStruct kind meant) LinksMembers :=
  match children with
  | [] => by
    unfold processChildren Meaning.children
    exact Reads.pure fun _ further => links.mono further
  | child :: rest => by
    unfold processChildren Meaning.children
    apply Reads.bind (processChild_reads owner child place scopeName isStruct kind made meant links)
    intro made' meant' after _ links'
    exact processChildren_reads owner rest after scopeName isStruct kind made' meant' links'

theorem processChild_reads (owner : Owner) (child : Element) (place : Place)
    (scopeName : String) (isStruct : Bool) (kind : StructUnion.Kind) (made : Members)
    (meant : Meaning.Members) (links : LinksMembers place made meant) :
    Reads place (processChild child scopeName isStruct kind made)
      (Meaning.child owner child scopeName isStruct kind meant) LinksMembers :=
  match child with
  | .mk name attributes children => by
    unfold processChild Meaning.child
    apply Reads.ite
    · intro _
      apply Reads.bind (processDataMember_reads isStruct (.mk name attributes children))
      intro member address after grows linked
      refine Reads.pure fun later further => ⟨?_, ?_, ?_⟩
      · exact (links.mono (grows.trans further)).baseClasses
      · exact (links.mono (grows.trans further)).methods
      · exact List.rel_append (links.mono (grows.trans further)).members
          (linked.imp fun _ _ held => held.mono further)
    intro _
    apply Reads.ite
    · intro _
      apply Reads.bind (processMemberType_reads owner children place scopeName)
      intro _ _ after grows _
      exact Reads.pure fun later further => links.mono (grows.trans further)
    intro _
    apply Reads.ite
    · intro _
      apply Reads.bind (processBaseClass_reads (.mk name attributes children))
      intro base address after grows linked
      refine Reads.pure fun later further => ⟨?_, ?_, ?_⟩
      · exact List.rel_append (links.mono (grows.trans further)).baseClasses
          (.cons (linked.mono further) .nil)
      · exact (links.mono (grows.trans further)).methods
      · exact (links.mono (grows.trans further)).members
    intro _
    apply Reads.ite
    · intro _
      apply Reads.bind (processMemberFunction_reads (.mk name attributes children))
      intro method address after grows linked
      refine Reads.pure fun later further => ⟨?_, ?_, ?_⟩
      · exact (links.mono (grows.trans further)).baseClasses
      · exact List.rel_append (links.mono (grows.trans further)).methods
          (.cons (linked.mono further) .nil)
      · exact (links.mono (grows.trans further)).members
    · intro _
      exact Reads.die _ _

theorem processMemberType_reads (owner : Owner) (children : List Element) (place : Place)
    (scopeName : String) :
    Reads place (processMemberType children scopeName)
      (Meaning.memberType owner children scopeName) (fun _ _ _ => True) :=
  match children with
  | [] => by
    unfold processMemberType Meaning.memberType
    exact Reads.die _ _
  | [decl] => by
    unfold processMemberType Meaning.memberType
    exact processMemberDecl_reads decl (processMembers_reads owner decl place)
  | _ :: _ :: _ => by
    unfold processMemberType Meaning.memberType
    exact Reads.die _ _

end

theorem processNonType_reads (corpus : Nat) {processInner : String → Reading Unit}
    {inner : String → Meaning Unit} (element : Element)
    (reads : ∀ after scopeName, place.Extends after →
      Reads after (processInner scopeName) (inner scopeName) (fun _ _ _ => True)) :
    Reads place (processNonType scopeName processInner element)
      (.nonType corpus scopeName inner element) (fun _ _ _ => True) := by
  unfold processNonType Meaning.nonType
  apply Reads.ite
  · intro _
    rw [← bind_pure (Meaning.variableDecl scopeName element)]
    apply Reads.bind (variableDecl_reads element)
    intro _ _ _ _ _
    exact Reads.pure fun _ _ => trivial
  intro _
  apply Reads.ite
  · intro _
    rw [← bind_pure (Meaning.functionDecl corpus scopeName element)]
    apply Reads.bind (functionDecl_reads corpus element)
    intro _ _ _ _ _
    exact Reads.pure fun _ _ => trivial
  intro _
  apply Reads.ite
  · intro _
    apply Reads.bind (Reads.ofExcept _)
    rintro name _ after grows ⟨rfl, _⟩
    exact reads after _ grows
  · intro _
    exact Reads.die _ _

mutual

theorem processScope_reads (corpus : Nat) (elements : List Element) (place : Place)
    (scopeName : String) :
    Reads place (processScope elements scopeName) (Meaning.scope corpus elements scopeName)
      (fun _ _ _ => True) :=
  match elements with
  | [] => by
    unfold processScope Meaning.scope
    exact Reads.pure fun _ _ => trivial
  | element :: rest => by
    unfold processScope Meaning.scope
    apply Reads.bind (processElement_reads corpus element place scopeName)
    intro _ _ after _ _
    exact processScope_reads corpus rest after scopeName

theorem processElement_reads (corpus : Nat) (element : Element) (place : Place)
    (scopeName : String) :
    Reads place (processElement element scopeName) (Meaning.member corpus element scopeName)
      (fun _ _ _ => True) :=
  match element with
  | .mk name attributes children => by
    unfold processElement Meaning.member
    cases getAttribute (.mk name attributes children) "id" with
    | some typeId =>
      apply unlessDefined_reads
      intro after id _ placed
      exact processType_reads _ (processMembers_reads _ _ after) placed
    | none =>
      apply processNonType_reads
      intro after scopeName' _
      exact processScope_reads corpus children after scopeName'

end

end Stg.AbiXml
