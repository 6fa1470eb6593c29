import Stg.AbiXml.Local

set_option autoImplicit false

/- What the elements of a document read and write of what has been said. -/
namespace Stg.AbiXml

namespace Local

variable {these : Resource → Prop} {owner : Owner} {typeId scopeName : String}
  {members : String → Bool → StructUnion.Kind → Meaning.Members → Meaning Meaning.Members}

/-- Only the symbol that a declaration carries is touched by it. -/
theorem variableDecl (decl : Element) (symbols : ∀ given ∈ carried decl, these (.symbol given)) :
    Local these these (Meaning.variableDecl scopeName decl) := by
  unfold Meaning.variableDecl
  apply bind (ofExcept _)
  intro name
  apply bind (mentioning _)
  intro type
  exact declare type _ symbols symbols

/-- A function's own node is one of the parts made for its symbol. -/
theorem functionDecl (corpus : Nat) (decl : Element)
    (symbols : ∀ given ∈ carried decl, these (.symbol given) ∧
      these (.parts (.symbol corpus given))) :
    Local these these (Meaning.functionDecl corpus scopeName decl) := by
  unfold carried at symbols
  unfold Meaning.functionDecl
  apply bind (ofExcept _)
  intro name
  apply bind (mentioning _)
  intro content
  cases given : getAttribute decl "elf-symbol-id" with
  | none => exact unlinked content
  | some symbolId =>
    rw [given] at symbols
    have own := symbols symbolId (List.mem_singleton_self _)
    apply bind (part .function content own.2 own.2)
    intro type
    have named : ∀ given ∈ (some symbolId).toList, these (.symbol given) :=
      fun given among => (symbols given among).1
    exact declare type _ named named

/-- Each link of a chain is a part of the same owner, except the first, which is the type's. -/
theorem chain (parts : these (.parts owner)) (type : these (.type typeId))
    (content : Address → Content) (contents : List (Address → Content)) (address : Address) :
    Local these these (Meaning.chain owner (.type typeId) content contents address) := by
  induction contents generalizing content address with
  | nil => exact define _ type type
  | cons next contents ih =>
    unfold Meaning.chain
    apply bind (part .chain _ parts parts)
    intro inner
    exact ih next inner

theorem qualified (parts : these (.parts owner)) (type : these (.type typeId)) (element : Element) :
    Local these these (Meaning.qualified owner (.type typeId) element) := by
  unfold Meaning.qualified
  apply bind (mentioning _)
  intro given
  exact chain parts type _ _ _

theorem array (parts : these (.parts owner)) (type : these (.type typeId)) (element : Element) :
    Local these these (Meaning.array owner (.type typeId) element) := by
  unfold Meaning.array
  apply bind (mentioning _)
  intro given
  exact chain parts type _ _ _

/-- A type without parts of its own sets its slot and mentions others. -/
theorem single (type : these (.type typeId)) (mentions : Mentions Content) :
    Local these these (Meaning.single (.type typeId) mentions) := by
  unfold Meaning.single
  apply bind (mentioning _)
  intro content
  exact define content type type

/-- A static member is a variable; any other is a part of the type it is in. -/
theorem dataMember (parts : these (.parts owner)) (isStruct : Bool) (child : Element)
    (named : child.name = "data-member")
    (symbols : ∀ given ∈ memberSymbols child, these (.symbol given)) :
    Local these these (Meaning.dataMember owner scopeName isStruct child) := by
  unfold Meaning.dataMember
  apply ofExcept_bind
  intro decl only
  apply bind (ofExcept _)
  intro _
  apply ofExcept_bind
  intro isStatic given
  apply ite
  · intro static
    have carries : memberSymbols child = carried decl := by
      unfold getOnlyChild at only
      split at only
      · rename_i children
        cases only
        have isTrue : (Except.ok true : Except Error Bool).toOption = some true := rfl
        rw [memberSymbols, if_pos named, given, static, if_pos isTrue, children]
        exact List.append_nil _
      · cases only
    rw [carries] at symbols
    apply bind (variableDecl decl symbols)
    intro _
    exact pure none
  · intro _
    apply bind (mentioning _)
    intro content
    apply bind (part .member content parts parts)
    intro address
    exact pure (some address)

/-- A member function may carry a symbol, and has two parts. -/
theorem memberFunction (parts : these (.parts owner)) (child : Element)
    (named : child.name = "member-function")
    (symbols : ∀ given ∈ memberSymbols child, these (.symbol given)) :
    Local these these (Meaning.memberFunction owner scopeName child) := by
  unfold Meaning.memberFunction
  apply ofExcept_bind
  intro decl only
  have carries : memberSymbols child = carried decl := by
    unfold getOnlyChild at only
    split at only
    · rename_i children
      cases only
      have other : child.name ≠ "data-member" := by
        rw [named]
        decide
      rw [memberSymbols, if_neg other, if_pos named, children]
      exact List.append_nil _
    · cases only
  rw [carries] at symbols
  apply bind (ofExcept _)
  intro _
  apply bind (ofExcept _)
  intro mangledName
  apply bind (ofExcept _)
  intro name
  apply bind (mentioning _)
  intro content
  apply bind (part .function content parts parts)
  intro type
  apply bind (declare type _ symbols symbols)
  intro _
  apply bind (ofExcept _)
  intro kind
  exact part .method _ parts parts

theorem baseClass (parts : these (.parts owner)) (element : Element) :
    Local these these (Meaning.baseClass owner element) := by
  unfold Meaning.baseClass
  apply bind (mentioning _)
  intro content
  exact part .baseClass content parts parts

/-- The members of a structure are made before its slot is set. -/
theorem structUnion (type : these (.type typeId)) (isStruct : Bool) (element : Element)
    (near : ∀ scopeName isStruct kind made,
      Local these these (members scopeName isStruct kind made)) :
    Local these these (Meaning.structUnion scopeName members (.type typeId) isStruct element) := by
  unfold Meaning.structUnion
  apply bind (ofExcept _)
  intro attributes
  apply ite
  · intro _
    exact define _ type type
  · intro _
    apply bind (ofExcept _)
    intro bits
    apply bind (near _ isStruct attributes.kind _)
    intro made
    exact define _ type type

/-- Only structures and unions go on into their members. -/
theorem userDefinedType (type : these (.type typeId)) (element : Element)
    (near : element.IsAggregate → ∀ scopeName isStruct kind made,
      Local these these (members scopeName isStruct kind made)) :
    Local these these (Meaning.userDefinedType scopeName members (.type typeId) element) := by
  unfold Meaning.userDefinedType
  apply ite
  · intro _
    apply bind (single type _)
    intro _
    exact pure true
  intro _
  apply ite
  · intro named
    apply bind (structUnion type true element (near (.inl named)))
    intro _
    exact pure true
  intro _
  apply ite
  · intro named
    apply bind (structUnion type false element (near (.inr named)))
    intro _
    exact pure true
  intro _
  apply ite
  · intro _
    apply bind (single type _)
    intro _
    exact pure true
  · intro _
    exact pure false

/-- A type touches its own slot, its own parts and what its members touch. -/
theorem type (parts : these (.parts owner)) (type : these (.type typeId)) (element : Element)
    (near : element.IsAggregate → ∀ scopeName isStruct kind made,
      Local these these (members scopeName isStruct kind made)) :
    Local these these (Meaning.type owner scopeName members (.type typeId) element) := by
  unfold Meaning.type
  apply ite
  · intro _
    exact single type _
  intro _
  apply ite
  · intro _
    exact single type _
  intro _
  apply ite
  · intro _
    exact single type _
  intro _
  apply ite
  · intro _
    exact qualified parts type element
  intro _
  apply ite
  · intro _
    exact array parts type element
  intro _
  apply ite
  · intro _
    exact single type _
  · intro _
    apply bind (userDefinedType type element near)
    intro known
    exact check known _

/-- A type declared inside another is touched under its own id. -/
theorem memberDecl (decl : Element) (types : ∀ typeId ∈ memberTypes [decl], these (.type typeId))
    (near : decl.IsAggregate → ∀ scopeName isStruct kind made,
      Local these these (members scopeName isStruct kind made)) :
    Local these these (Meaning.memberDecl scopeName members decl) := by
  unfold Meaning.memberDecl
  apply ofExcept_bind
  intro typeId given
  have own : these (.type typeId) := by
    apply types
    unfold getAttributeOrDie at given
    split at given
    · rename_i value found
      cases given
      rw [memberTypes, found]
      exact List.mem_cons_self
    · cases given
  apply unlessDefined own
  apply bind (userDefinedType own decl near)
  intro known
  exact check known _

end Local

/- The recursion over the elements. -/

/-- The resource is of one of the types, has to do with one of the symbols or is a part
of the owner. -/
structure Covers (these : Resource → Prop) (owner : Owner) (types symbols : List String) : Prop where
  parts : these (.parts owner)
  types : ∀ typeId ∈ types, these (.type typeId)
  symbols : ∀ symbolId ∈ symbols, these (.symbol symbolId)

namespace Covers

variable {these : Resource → Prop} {owner : Owner} {types types' symbols symbols' : List String}

theorem left (covers : Covers these owner (types ++ types') (symbols ++ symbols')) :
    Covers these owner types symbols where
  parts := covers.parts
  types typeId among := covers.types typeId (List.mem_append_left _ among)
  symbols symbolId among := covers.symbols symbolId (List.mem_append_left _ among)

theorem right (covers : Covers these owner (types ++ types') (symbols ++ symbols')) :
    Covers these owner types' symbols' where
  parts := covers.parts
  types typeId among := covers.types typeId (List.mem_append_right _ among)
  symbols symbolId among := covers.symbols symbolId (List.mem_append_right _ among)

end Covers

section

variable {these : Resource → Prop} {owner : Owner}

mutual

/-- The recursion over members: what is touched is below the element, or a part of the type
it began with. -/
theorem members_local (element : Element) (aggregate : element.IsAggregate)
    (covers : Covers these owner (nestedTypes element) (nestedSymbols element)) (scopeName : String)
    (isStruct : Bool) (kind : StructUnion.Kind) (made : Meaning.Members) :
    Local these these (Meaning.members owner element scopeName isStruct kind made) :=
  match element with
  | .mk name attributes children => by
    unfold nestedTypes nestedSymbols at covers
    rw [if_pos aggregate, if_pos aggregate] at covers
    unfold Meaning.members
    exact children_local children covers scopeName isStruct kind made

theorem children_local (children : List Element)
    (covers : Covers these owner (childrenTypes children) (childrenSymbols children))
    (scopeName : String) (isStruct : Bool) (kind : StructUnion.Kind) (made : Meaning.Members) :
    Local these these (Meaning.children owner children scopeName isStruct kind made) :=
  match children with
  | [] => by
    unfold Meaning.children
    exact Local.pure made
  | child :: rest => by
    unfold childrenTypes childrenSymbols at covers
    unfold Meaning.children
    apply Local.bind (child_local child covers.left scopeName isStruct kind made)
    intro made'
    exact children_local rest covers.right scopeName isStruct kind made'

theorem child_local (child : Element)
    (covers : Covers these owner (childTypes child) (childSymbols child)) (scopeName : String)
    (isStruct : Bool) (kind : StructUnion.Kind) (made : Meaning.Members) :
    Local these these (Meaning.child owner child scopeName isStruct kind made) :=
  match child with
  | .mk name attributes children => by
    unfold childTypes childSymbols at covers
    unfold Meaning.child
    by_cases type : name = "member-type"
    · subst type
      rw [if_pos rfl, if_pos rfl] at covers
      rw [if_neg (by decide), if_pos rfl]
      apply Local.bind (memberType_local children covers scopeName)
      intro _
      exact Local.pure made
    rw [if_neg type, if_neg type] at covers
    apply Local.ite
    · intro named
      apply Local.bind (Local.dataMember covers.parts isStruct (.mk name attributes children) named
        covers.symbols)
      intro member
      exact Local.pure _
    intro _
    rw [if_neg type]
    apply Local.ite
    · intro _
      apply Local.bind (Local.baseClass covers.parts _)
      intro base
      exact Local.pure _
    intro _
    apply Local.ite
    · intro named
      apply Local.bind (Local.memberFunction covers.parts (.mk name attributes children) named
        covers.symbols)
      intro method
      exact Local.pure _
    · intro _
      exact Local.die _

/-- The types inside are among those listed for the element. -/
theorem memberType_local (children : List Element)
    (covers : Covers these owner (memberTypes children) (memberTypeSymbols children))
    (scopeName : String) :
    Local these these (Meaning.memberType owner children scopeName) :=
  match children with
  | [] => by
    unfold Meaning.memberType
    exact Local.die _
  | [decl] => by
    unfold Meaning.memberType
    have inner : Covers these owner (nestedTypes decl) (nestedSymbols decl) := by
      unfold memberTypes memberTypeSymbols at covers
      exact ⟨covers.parts, fun typeId among => covers.types typeId (List.mem_append_right _ among),
        covers.symbols⟩
    exact Local.memberDecl decl covers.types fun aggregate => members_local decl aggregate inner
  | _ :: _ :: _ => by
    unfold Meaning.memberType
    exact Local.die _

end

end

/- Scopes. -/

/-- What has to do with these types and these symbols of a corpus. -/
def Footprint (corpus : Nat) (types symbols : List String) : Resource → Prop
  | .type typeId => typeId ∈ types
  | .parts (.type typeId) => typeId ∈ types
  | .parts (.symbol number symbolId) => number = corpus ∧ symbolId ∈ symbols
  | .parts .document => False
  | .symbol symbolId => symbolId ∈ symbols

/-- More types and symbols, more that has to do with them. -/
theorem Footprint.mono (corpus : Nat) {types types' symbols symbols' : List String}
    (moreTypes : types ⊆ types') (moreSymbols : symbols ⊆ symbols') (resource : Resource)
    (among : Footprint corpus types symbols resource) :
    Footprint corpus types' symbols' resource := by
  cases resource with
  | type typeId => exact moreTypes among
  | symbol symbolId => exact moreSymbols among
  | parts owner =>
    cases owner with
    | type typeId => exact moreTypes among
    | symbol number symbolId => exact ⟨among.1, moreSymbols among.2⟩
    | document => exact among

/-- Elements with other types and other symbols have nothing in common. -/
theorem Footprint.disjoint (corpus : Nat) {types types' symbols symbols' : List String}
    (apartTypes : types.Disjoint types') (apartSymbols : symbols.Disjoint symbols')
    (resource : Resource) (among : Footprint corpus types symbols resource) :
    ¬ Footprint corpus types' symbols' resource := by
  intro among'
  cases resource with
  | type typeId => exact apartTypes among among'
  | symbol symbolId => exact apartSymbols among among'
  | parts owner =>
    cases owner with
    | type typeId => exact apartTypes among among'
    | symbol number symbolId => exact apartSymbols among.2 among'.2
    | document => exact among

/-- An element without an id is a declaration or a namespace. -/
theorem nonType_local {corpus : Nat} {these : Resource → Prop} {inner : String → Meaning Unit}
    (scopeName : String) (element : Element)
    (symbols : element.name ≠ "namespace-decl" → ∀ given ∈ carried element,
      these (.symbol given) ∧ these (.parts (.symbol corpus given)))
    (near : element.name = "namespace-decl" → ∀ scopeName, Local these these (inner scopeName)) :
    Local these these (Meaning.nonType corpus scopeName inner element) := by
  unfold Meaning.nonType
  apply Local.ite
  · intro named
    have other : element.name ≠ "namespace-decl" := by
      rw [named]
      decide
    exact Local.variableDecl element fun given among => (symbols other given among).1
  intro _
  apply Local.ite
  · intro named
    have other : element.name ≠ "namespace-decl" := by
      rw [named]
      decide
    exact Local.functionDecl corpus element (symbols other)
  intro _
  apply Local.ite
  · intro named
    apply Local.bind (Local.ofExcept _)
    intro name
    exact near named _
  · intro _
    exact Local.die _

mutual

/-- A scope touches what its elements touch, one after the other. -/
theorem scope_local (corpus : Nat) (elements : List Element) (scopeName : String) :
    Local (Footprint corpus (scopeTypes elements) (scopeSymbols elements))
      (Footprint corpus (scopeTypes elements) (scopeSymbols elements))
      (Meaning.scope corpus elements scopeName) :=
  match elements with
  | [] => by
    unfold Meaning.scope
    exact Local.pure ()
  | element :: rest => by
    unfold Meaning.scope
    have first := Footprint.mono corpus (List.subset_append_left (elementTypes element)
      (scopeTypes rest)) (List.subset_append_left (elementSymbols element) (scopeSymbols rest))
    have later := Footprint.mono corpus (List.subset_append_right (elementTypes element)
      (scopeTypes rest)) (List.subset_append_right (elementSymbols element) (scopeSymbols rest))
    apply Local.bind ((member_local corpus element scopeName).mono first first)
    intro _
    exact (scope_local corpus rest scopeName).mono later later

/-- An element with an id is a type, and one without goes by its name. -/
theorem member_local (corpus : Nat) (element : Element) (scopeName : String) :
    Local (Footprint corpus (elementTypes element) (elementSymbols element))
      (Footprint corpus (elementTypes element) (elementSymbols element))
      (Meaning.member corpus element scopeName) :=
  match element with
  | .mk name attributes children => by
    unfold Meaning.member elementTypes elementSymbols
    cases getAttribute (.mk name attributes children) "id" with
    | some typeId =>
      dsimp only
      apply Local.unlessDefined
      · exact List.mem_cons_self
      apply Local.type
      · exact List.mem_cons_self
      · exact List.mem_cons_self
      intro aggregate
      apply members_local _ aggregate
      constructor
      · exact List.mem_cons_self
      · exact fun typeId' among => List.mem_cons_of_mem _ among
      · exact fun _ among => among
    | none =>
      dsimp only
      by_cases named : name = "namespace-decl"
      · subst named
        rw [if_pos rfl, if_pos rfl]
        apply nonType_local
        · exact fun other => absurd rfl other
        · exact fun _ scopeName' => scope_local corpus children scopeName'
      · rw [if_neg named, if_neg named]
        apply nonType_local
        · exact fun _ given among => ⟨among, rfl, among⟩
        · exact fun same => absurd same named

end

end Stg.AbiXml
