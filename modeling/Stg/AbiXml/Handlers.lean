import Stg.AbiXml.Steps
import Stg.Lib.Entries

set_option autoImplicit false

/- The handlers of the elements read what the elements mean. -/
namespace Stg.AbiXml

variable {place place' : Place} {id : Id} {typeId : String} {scopeName : String}

theorem LinksType.mono {address : Address} (grows : place.Extends place')
    (linked : LinksType place id address) : LinksType place' id address :=
  ⟨grows _ _ linked.1, linked.2⟩

theorem LinksType.at_ {address : Address} (linked : LinksType place id address) :
    place.at_ address = id := by
  rw [Place.at_, linked.1]
  rfl

theorem LinksType.placed {address : Address} (linked : LinksType place id address) :
    place address ≠ none := by
  rw [linked.1]
  exact nofun

/-- The node is the content, which may be that of any type. -/
def MakesType (place : Place) (node : Node) (content : Content) : Prop :=
  place.Makes content node ∧ ∀ typeId, content.Fits (.type typeId)

/-- A content with one reference. -/
theorem makes_one {address : Address} {content : Content} {node : Node}
    (linked : LinksType place id address) (one : content.references = [address])
    (same : place.at_ address = id → content.node place.at_ = node) : place.Makes content node where
  node := (same linked.at_).symm
  references := by
    intro reference among
    rw [one] at among
    cases List.mem_singleton.mp among
    exact linked.placed

/-- A content with no reference. -/
theorem makes_none {content : Content} {node : Node} (none : content.references = [])
    (same : content.node place.at_ = node) : place.Makes content node where
  node := same.symm
  references := by
    rw [none]
    exact List.forall_mem_nil _

/- Function types. -/

def LinksParameter (place : Place) (parameter : Parameter) (meant : String × Address) : Prop :=
  parameter.name = meant.1 ∧ LinksType place parameter.typeId meant.2

theorem linksReturn_mono {returnType : Option Id} {meant : Option Address}
    (grows : place.Extends place') (linked : Option.Rel (LinksType place) returnType meant) :
    Option.Rel (LinksType place') returnType meant := by
  cases linked with
  | none => exact .none
  | some held => exact .some (held.mono grows)

structure LinksFunction (place : Place) (made : List Parameter × Option Id)
    (meant : List (String × Address) × Option Address) : Prop where
  parameters : List.Forall₂ (LinksParameter place) made.1 meant.1
  returnType : Option.Rel (LinksType place) made.2 meant.2

theorem LinksFunction.mono {made : List Parameter × Option Id}
    {meant : List (String × Address) × Option Address} (grows : place.Extends place')
    (links : LinksFunction place made meant) : LinksFunction place' made meant where
  parameters := links.parameters.imp fun _ _ held => ⟨held.1, held.2.mono grows⟩
  returnType := linksReturn_mono grows links.returnType

theorem LinksFunction.snoc {parameters : List Parameter} {returnType : Option Id}
    {meantParameters : List (String × Address)} {meantReturnType : Option Address} {name : String}
    {address : Address} (links : LinksFunction place (parameters, returnType)
      (meantParameters, meantReturnType)) (linked : LinksType place id address) :
    LinksFunction place (parameters ++ [⟨name, id⟩], returnType)
      (meantParameters ++ [(name, address)], meantReturnType) where
  parameters := List.rel_append links.parameters (.cons ⟨rfl, linked⟩ .nil)
  returnType := links.returnType

theorem LinksFunction.return {parameters : List Parameter} {returnType : Option Id}
    {meantParameters : List (String × Address)} {meantReturnType : Option Address}
    {address : Address} (links : LinksFunction place (parameters, returnType)
      (meantParameters, meantReturnType)) (linked : LinksType place id address) :
    LinksFunction place (parameters, some id) (meantParameters, some address) where
  parameters := links.parameters
  returnType := .some linked

theorem functionChild_notes (function child : Element) {parameters : List Parameter}
    {returnType : Option Id} {meantParameters : List (String × Address)}
    {meantReturnType : Option Address}
    (links : LinksFunction place (parameters, returnType) (meantParameters, meantReturnType)) :
    Notes place (functionChild function child parameters returnType)
      (.functionChild function child meantParameters meantReturnType) LinksFunction := by
  have same : meantReturnType.isNone = returnType.isNone := by
    obtain ⟨_, returnTypes⟩ := links
    cases returnTypes <;> rfl
  unfold functionChild Mentions.functionChild
  rw [same]
  apply Notes.bind (Notes.check _ _)
  intro _ _ checked grows _
  apply Notes.ite
  · intro _
    apply Notes.bind (Notes.ofExcept _)
    rintro isVariadic _ read grows' ⟨rfl, _⟩
    apply Notes.ite
    · intro _
      apply Notes.bind getVariadic_notes
      intro type address after grows'' linked
      exact Notes.pure fun later further =>
        ((links.mono ((grows.trans grows').trans (grows''.trans further))).snoc
          (linked.mono further))
    · intro _
      apply Notes.bind (getEdge_notes child)
      intro type address after grows'' linked
      exact Notes.pure fun later further =>
        ((links.mono ((grows.trans grows').trans (grows''.trans further))).snoc
          (linked.mono further))
  · intro _
    apply Notes.ite
    · intro _
      apply Notes.bind (getEdge_notes child)
      intro type address after grows' linked
      exact Notes.pure fun later further =>
        (links.mono (grows.trans (grows'.trans further))).return (linked.mono further)
    · intro _
      exact Notes.die _ _

theorem functionChildren_notes (function : Element) (children : List Element)
    {parameters : List Parameter} {returnType : Option Id}
    {meantParameters : List (String × Address)} {meantReturnType : Option Address}
    (links : LinksFunction place (parameters, returnType) (meantParameters, meantReturnType)) :
    Notes place (functionChildren function children parameters returnType)
      (.functionChildren function children meantParameters meantReturnType) LinksFunction := by
  induction children generalizing place parameters returnType meantParameters meantReturnType with
  | nil => exact Notes.pure fun later further => links.mono further
  | cons child rest ih =>
    unfold functionChildren Mentions.functionChildren
    apply Notes.bind (functionChild_notes function child links)
    intro _ _ after _ links'
    exact ih links'

/-- The node is a function type. -/
def MakesFunction (place : Place) (node : Node) (content : Content) : Prop :=
  MakesType place node content ∧ ∀ owner index, content.Fits (.part .function owner index)

theorem makes_function {parameters : List Parameter} {meantParameters : List (String × Address)}
    {address : Address} (parametersLinked :
      List.Forall₂ (LinksParameter place) parameters meantParameters)
    (linked : LinksType place id address) :
    MakesFunction place (.function ⟨id, parameters⟩) (.function address meantParameters) := by
  have types : ∀ p ∈ meantParameters, place p.2 ≠ none ∧ p.2.IsType := by
    intro p among
    obtain ⟨parameter, _, held⟩ := forall₂_mem_right parametersLinked among
    exact ⟨held.2.placed, held.2.2⟩
  have same : parameters = meantParameters.map fun p => ⟨p.1, place.at_ p.2⟩ := by
    induction parametersLinked with
    | nil => rfl
    | cons first _ ih =>
      have rest := ih fun p among => types p (List.mem_cons_of_mem _ among)
      rw [List.map_cons, ← rest, ← first.1, first.2.at_]
  refine ⟨⟨⟨?_, ?_⟩, ?_⟩, ?_⟩
  · rw [Content.node, linked.at_, same]
  · intro reference among
    rcases List.mem_cons.mp among with rfl | among
    · exact linked.placed
    · obtain ⟨p, present, rfl⟩ := List.mem_map.mp among
      exact (types p present).1
  · exact fun _ => ⟨.inl trivial, linked.2, fun p among => (types p among).2⟩
  · exact fun _ _ => ⟨.inr rfl, linked.2, fun p among => (types p among).2⟩

theorem makeFunctionType_notes (function : Element) :
    Notes place (makeFunctionType function) (.functionType function) MakesFunction := by
  unfold makeFunctionType Mentions.functionType
  apply Notes.bind (functionChildren_notes function function.children ⟨.nil, .none⟩)
  rintro ⟨parameters, returnType⟩ ⟨meantParameters, meantReturnType⟩ after _ ⟨linked, returned⟩
  cases returned with
  | none => exact Notes.die _ _
  | some held =>
    refine Notes.pure fun later further => makes_function ?_ (held.mono further)
    exact linked.imp fun _ _ kept => ⟨kept.1, kept.2.mono further⟩

/- Definitions of one node. -/

theorem single_reads {make : Reading Node} {mentions : Mentions Content}
    (notes : Notes place make mentions MakesType) (placed : place (.type typeId) = some id) :
    Reads place (make >>= set id) (.single (.type typeId) mentions) (fun _ _ _ => True) := by
  unfold Meaning.single
  apply Reads.bind notes
  intro node content after grows makes
  exact define_reads (grows _ _ placed) makes.1 (makes.2 typeId)

theorem processFunctionType_reads (function : Element) (placed : place (.type typeId) = some id) :
    Reads place (processFunctionType id function) (.single (.type typeId) (.functionType function))
      (fun _ _ _ => True) :=
  single_reads ((makeFunctionType_notes function).imp fun _ _ _ _ makes => makes.1) placed

theorem processTypedef_reads (element : Element) (placed : place (.type typeId) = some id) :
    Reads place (processTypedef scopeName id element)
      (.single (.type typeId) (.typedef scopeName element)) (fun _ _ _ => True) := by
  have notes : Notes place (do
      let name ← ofExcept (getAttributeOrDie element "name")
      let type ← getEdge element
      return .typedef ⟨scopeName ++ name, type⟩) (.typedef scopeName element) MakesType := by
    apply Notes.bind (Notes.ofExcept _)
    rintro name _ _ _ ⟨rfl, _⟩
    apply Notes.bind (getEdge_notes element)
    intro type address after _ linked
    refine Notes.pure fun later further => ⟨makes_one (linked.mono further) rfl ?_, ?_⟩
    · rintro rfl
      rfl
    · exact fun _ => ⟨trivial, linked.2⟩
  have reads := single_reads notes placed
  simp only [bind_assoc, pure_bind] at reads
  exact reads

theorem processPointer_reads (isPointer : Bool) (element : Element)
    (placed : place (.type typeId) = some id) :
    Reads place (processPointer id isPointer element)
      (.single (.type typeId) (.pointer isPointer element)) (fun _ _ _ => True) := by
  have notes : Notes place (do
      let type ← getEdge element
      let kind ← ofExcept (readPointerKind isPointer element)
      return .pointerReference ⟨kind, type⟩) (.pointer isPointer element) MakesType := by
    apply Notes.bind (getEdge_notes element)
    intro type address after _ linked
    apply Notes.bind (Notes.ofExcept _)
    rintro kind _ after' grows ⟨rfl, _⟩
    refine Notes.pure fun later further =>
      ⟨makes_one (linked.mono (grows.trans further)) rfl ?_, ?_⟩
    · rintro rfl
      rfl
    · exact fun _ => ⟨trivial, linked.2⟩
  have reads := single_reads notes placed
  simp only [bind_assoc, pure_bind] at reads
  exact reads

/-- A node without references. -/
theorem readTypeDecl_plain {element : Element} {node : Node}
    (read : readTypeDecl scopeName element = .ok node) :
    node = .void ∨ ∃ integer, node = .integer integer := by
  obtain ⟨name, _, read⟩ := bind_eq_ok read
  obtain ⟨bits, _, read⟩ := bind_eq_ok read
  dsimp only at read
  split at read
  · cases read
    exact .inl rfl
  · cases read
    exact .inr ⟨_, rfl⟩

theorem processTypeDecl_reads (element : Element) (placed : place (.type typeId) = some id) :
    Reads place (processTypeDecl scopeName id element)
      (.single (.type typeId) (.typeDecl scopeName element)) (fun _ _ _ => True) := by
  have notes : Notes place (ofExcept (readTypeDecl scopeName element))
      (.typeDecl scopeName element) MakesType := by
    unfold Mentions.typeDecl
    rw [← bind_pure (ofExcept (readTypeDecl scopeName element))]
    apply Notes.bind (Notes.ofExcept _)
    rintro node _ after _ ⟨rfl, read⟩
    rcases readTypeDecl_plain read with rfl | ⟨integer, rfl⟩
    · exact Notes.pure fun _ _ => ⟨makes_none rfl rfl, fun _ => trivial⟩
    · exact Notes.pure fun _ _ => ⟨makes_none rfl rfl, fun _ => trivial⟩
  exact single_reads notes placed

theorem processEnum_reads (element : Element) (placed : place (.type typeId) = some id) :
    Reads place (processEnum scopeName id element)
      (.single (.type typeId) (.enum scopeName element)) (fun _ _ _ => True) := by
  have plain : ∀ (after : Place) (node : Enumeration),
      MakesType after (.enumeration node) (.enumeration node) :=
    fun _ _ => ⟨makes_none rfl rfl, fun _ => trivial⟩
  unfold processEnum Meaning.single Mentions.enum
  rw [mentioning_bind, bind_assoc]
  apply Reads.bind (Notes.ofExcept _)
  rintro ⟨forward, name⟩ _ after grows ⟨rfl, _⟩
  have placed' := grows _ _ placed
  dsimp only
  cases forward with
  | true =>
    have made := plain after ⟨name, none⟩
    have defined := define_reads placed' made.1 (made.2 typeId)
    rw [if_pos rfl, if_pos rfl, mentioning_pure, pure_bind]
    exact defined
  | false =>
    rw [if_neg Bool.false_ne_true, if_neg Bool.false_ne_true]
    cases element.children with
    | nil => exact Reads.throw ⟨_, rfl⟩ _
    | cons underlying rest =>
      dsimp only
      rw [mentioning_bind, bind_assoc]
      apply Reads.bind (Notes.ofExcept _)
      rintro _ _ after' grows' ⟨_, _⟩
      rw [mentioning_bind, bind_assoc]
      apply Reads.bind (getEdge_notes underlying)
      intro _ _ after'' grows'' _
      rw [mentioning_bind, bind_assoc]
      apply Reads.bind (Notes.ofExcept _)
      rintro enumerators _ last further ⟨rfl, _⟩
      have made := plain last ⟨name, some ⟨0, enumerators⟩⟩
      have placed'' := further _ _ (grows'' _ _ (grows' _ _ placed'))
      rw [mentioning_pure, pure_bind]
      exact define_reads placed'' made.1 (made.2 typeId)

/- Chains. -/

/-- The node is the content, with the same type inside, which may be that of any type and
in any chain. -/
def LinksChain (node : Id → Node) (content : Address → Content) : Prop :=
  ∀ place id address, LinksType place id address → MakesType place (node id) (content address) ∧
    ∀ owner index, (content address).Fits (.part .chain owner index)

theorem qualified_linksChain (qualifier : Qualifier) :
    LinksChain (fun type => .qualified ⟨qualifier, type⟩) (.qualified qualifier) := by
  intro place id address linked
  refine ⟨⟨makes_one linked rfl ?_, ?_⟩, ?_⟩
  · rintro rfl
    rfl
  · exact fun _ => ⟨.inl trivial, linked.2⟩
  · exact fun _ _ => ⟨.inr rfl, linked.2⟩

theorem array_linksChain (size : UInt64) :
    LinksChain (fun type => .array ⟨size, type⟩) (.array size) := by
  intro place id address linked
  refine ⟨⟨makes_one linked rfl ?_, ?_⟩, ?_⟩
  · rintro rfl
    rfl
  · exact fun _ => ⟨.inl trivial, linked.2⟩
  · exact fun _ _ => ⟨.inr rfl, linked.2⟩

theorem setChain_reads {node : Id → Node} {content : Address → Content} {nodes : List (Id → Node)}
    {contents : List (Address → Content)} {type : Id} {address : Address} (owner : Owner)
    (placed : place (.type typeId) = some id) (linked : LinksType place type address)
    (first : LinksChain node content) (rest : List.Forall₂ LinksChain nodes contents) :
    Reads place (setChain id node nodes type)
      (.chain owner (.type typeId) content contents address) (fun _ _ _ => True) := by
  induction rest generalizing place node content type address with
  | nil =>
    have makes := (first place type address linked).1
    exact define_reads placed makes.1 (makes.2 typeId)
  | cons next _ ih =>
    obtain ⟨makes, fits⟩ := first place type address linked
    unfold setChain Meaning.chain
    apply Reads.bind (part_reads makes.1 (fits owner))
    rintro type' address' after grows ⟨placed', plays⟩
    exact ih (grows _ _ placed) ⟨placed', Address.isType_of_plays (.inl plays)⟩ next

theorem forall₂_map_linksChain {α : Type} {node : α → Id → Node} {content : α → Address → Content}
    (each : ∀ a, LinksChain (node a) (content a)) (items : List α) :
    List.Forall₂ LinksChain (items.map node) (items.map content) := by
  rw [List.forall₂_map_left_iff, List.forall₂_map_right_iff]
  exact List.forall₂_same.mpr fun a _ => each a

theorem processQualified_reads (owner : Owner) (element : Element)
    (placed : place (.type typeId) = some id) :
    Reads place (processQualified id element) (.qualified owner (.type typeId) element)
      (fun _ _ _ => True) := by
  unfold processQualified Meaning.qualified Mentions.qualified
  rw [mentioning_bind, bind_assoc]
  apply Reads.bind (Notes.ofExcept _)
  rintro qualifiers _ after grows ⟨rfl, _⟩
  cases qualifiers with
  | nil => exact Reads.throw ⟨_, rfl⟩ _
  | cons qualifier qualifiers =>
    dsimp only
    rw [mentioning_bind, bind_assoc]
    apply Reads.bind (getEdge_notes element)
    intro type address after' grows' linked
    rw [mentioning_pure, pure_bind]
    exact setChain_reads owner (grows' _ _ (grows _ _ placed)) linked
      (qualified_linksChain qualifier) (forall₂_map_linksChain qualified_linksChain qualifiers)

theorem processArray_reads (owner : Owner) (element : Element)
    (placed : place (.type typeId) = some id) :
    Reads place (processArray id element) (.array owner (.type typeId) element)
      (fun _ _ _ => True) := by
  unfold processArray Meaning.array Mentions.array
  rw [mentioning_bind, bind_assoc]
  apply Reads.bind (Notes.ofExcept _)
  rintro dimensions _ after grows ⟨rfl, _⟩
  cases dimensions.reverse with
  | nil => exact Reads.throw ⟨_, rfl⟩ _
  | cons size sizes =>
    dsimp only
    rw [mentioning_bind, bind_assoc]
    apply Reads.bind (getEdge_notes element)
    intro type address after' grows' linked
    rw [mentioning_pure, pure_bind]
    exact setChain_reads owner (grows' _ _ (grows _ _ placed)) linked
      (array_linksChain size) (forall₂_map_linksChain array_linksChain sizes)

end Stg.AbiXml
