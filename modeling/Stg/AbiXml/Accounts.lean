import Stg.AbiXml.Processed
import Stg.AbiXml.Permuted

set_option autoImplicit false

/- The parts of a document that are processed account for what it says. -/
namespace Stg.AbiXml

theorem getAttribute_of_ok {element : Element} {name value : String}
    (given : getAttributeOrDie element name = .ok value) :
    getAttribute element name = some value := by
  unfold getAttributeOrDie at given
  split at given
  · rename_i found
    cases given
    exact found
  · cases given

namespace Mentions

/-- The reading does not make an integer. -/
def Plain (reading : Mentions Content) : Prop :=
  ∀ content noted, reading = .ok (content, noted) → content.integer? = none

namespace Plain

variable {β : Type} {mentions : Mentions β} {rest : β → Mentions Content} {content : Content}

theorem pure (plain : content.integer? = none) : Plain (Pure.pure content) := by
  rintro content' noted ⟨⟩
  exact plain

theorem throw (reason : Error) : Plain (MonadExcept.throw reason) := fun _ _ => nofun

theorem bind (last : ∀ value, Plain (rest value)) : Plain (mentions >>= rest) := by
  intro content noted read
  change Mentions.andThen mentions rest = _ at read
  unfold Mentions.andThen at read
  split at read
  · split at read
    · rename_i given
      cases read
      exact last _ _ _ given
    · cases read
  · cases read

end Plain

theorem functionType_plain (function : Element) : Plain (functionType function) := by
  unfold functionType
  apply Plain.bind
  rintro ⟨parameters, returnType⟩
  cases returnType with
  | some returnType => exact Plain.pure rfl
  | none => exact Plain.throw _

theorem typedef_plain (scopeName : String) (element : Element) :
    Plain (typedef scopeName element) := by
  unfold typedef
  apply Plain.bind
  intro name
  apply Plain.bind
  intro type
  exact Plain.pure rfl

theorem pointer_plain (isPointer : Bool) (element : Element) :
    Plain (pointer isPointer element) := by
  unfold pointer
  apply Plain.bind
  intro type
  apply Plain.bind
  intro kind
  exact Plain.pure rfl

theorem enum_plain (scopeName : String) (element : Element) : Plain (enum scopeName element) := by
  unfold enum
  apply Plain.bind
  rintro ⟨forward, name⟩
  cases forward with
  | true => exact Plain.pure rfl
  | false =>
    dsimp only
    rw [if_neg Bool.false_ne_true]
    split
    · exact Plain.throw _
    · apply Plain.bind
      intro _
      apply Plain.bind
      intro _
      apply Plain.bind
      intro enumerators
      exact Plain.pure rfl

theorem baseClass_plain (element : Element) : Plain (baseClass element) := by
  unfold baseClass
  apply Plain.bind
  intro type
  apply Plain.bind
  intro offset
  apply Plain.bind
  intro isVirtual
  exact Plain.pure rfl

theorem dataMember_plain (isStruct : Bool) (element decl : Element) :
    Plain (dataMember isStruct element decl) := by
  unfold dataMember
  apply Plain.bind
  intro offset
  apply Plain.bind
  intro name
  apply Plain.bind
  intro type
  exact Plain.pure rfl

/-- A type declaration is of an integer or of `void`. -/
theorem typeDecl_integer {scopeName typeId : String} {element : Element} {content : Content}
    {noted : List Address} (named : element.name = "type-decl")
    (read : typeDecl scopeName element = .ok (content, noted)) :
    content.integer?.map (fun node => (Address.type typeId, node)) =
      (Processed.definition typeId scopeName element).integer? := by
  unfold typeDecl at read
  unfold Processed.integer?
  dsimp only
  rw [if_pos named]
  cases given : readTypeDecl scopeName element with
  | error reason =>
    rw [given] at read
    cases read
  | ok node =>
    rw [given] at read
    cases node with
    | integer node =>
      have same : (.ok (.integer node, []) : Except Error (Content × List Address)) =
        .ok (content, noted) := read
      cases same
      rfl
    | _ =>
      have same : (.ok (.void, []) : Except Error (Content × List Address)) =
        .ok (content, noted) := read
      cases same
      rfl

theorem edge_ok {element : Element} {type : Address} {noted : List Address}
    (read : edge element = .ok (type, noted)) :
    ∃ typeId, getAttribute element "type-id" = some typeId ∧ type = .type typeId := by
  unfold edge at read
  split at read
  · rename_i typeId given
    cases read
    exact ⟨typeId, getAttribute_of_ok given, rfl⟩
  · cases read

end Mentions

theorem declare_spec {said more : Contents} {symbolId : Option String} {type : Address}
    {name : String}
    (means : Meaning.declare symbolId type name said = .ok ((), more)) :
    more.entries = [] ∧
      (∀ declaration ∈ more.declarations, symbolId = some declaration.1 ∧
        declaration.2 = (type, name)) ∧
      ∀ given, symbolId = some given → ∃ other,
        (said ++ more).declarations.lookup given = some (type, other) := by
  unfold Meaning.declare at means
  cases symbolId with
  | none =>
    cases means
    exact ⟨rfl, List.forall_mem_nil _, fun _ => nofun⟩
  | some symbolId =>
    dsimp only at means
    split at means
    · rename_i before other found
      split at means
      · rename_i same
        cases means
        refine ⟨rfl, List.forall_mem_nil _, ?_⟩
        rintro given ⟨⟩
        rw [Contents.append_empty, found, same]
        exact ⟨other, rfl⟩
      · cases means
    · rename_i found
      cases means
      refine ⟨rfl, ?_, ?_⟩
      · intro declaration among
        cases List.mem_singleton.mp among
        exact ⟨rfl, rfl⟩
      · rintro given ⟨⟩
        refine ⟨name, ?_⟩
        rw [Contents.declarations_append, List.lookup_append, found, Option.none_or]
        exact List.lookup_cons_self

/-- The members process what is inside of the definition. -/
def ProcessesMembers (inner : String → List String → List Processed)
    (members : String → Bool → StructUnion.Kind → Meaning.Members → Meaning Meaning.Members) : Prop :=
  ∀ scopeName isStruct kind made, Processes (inner scopeName) (members scopeName isStruct kind made)

namespace Processes

variable {owner : Owner} {typeId scopeName : String} {inner : String → List String → List Processed}
  {members : String → Bool → StructUnion.Kind → Meaning.Members → Meaning Meaning.Members}

/-- What is declared after the node of its type, if this is a new one. -/
theorem declaring {said one three : Contents} {isVariable : Bool}
    {decl : Element} {type : Address} {name : String} (before : Accounts said [] one)
    (means : Meaning.declare (getAttribute decl "elf-symbol-id") type name (said ++ one) =
      .ok ((), three))
    (declares : ∀ symbolId, getAttribute decl "elf-symbol-id" = some symbolId →
      (Processed.declaration isVariable scopeName decl).Declares (one ++ three)
        symbolId type name) :
    Accounts said [.declaration isVariable scopeName decl] (one ++ three) := by
  obtain ⟨entries, declarations, declared⟩ := declare_spec means
  refine ⟨⟨?_, ?_⟩, ?_, ?_⟩
  · rw [Contents.typeIds_append, before.types, Contents.typeIds, Contents.addresses, entries]
    rfl
  · rw [Contents.integers_append, before.integers, Contents.integers, entries]
    rfl
  · intro declaration among
    rw [Contents.declarations_append, List.mem_append] at among
    rcases among with early | late
    · obtain ⟨_, none, _⟩ := before.declarations declaration early
      cases none
    · obtain ⟨carries, same⟩ := declarations declaration late
      refine ⟨_, List.mem_singleton_self _, ?_⟩
      rw [same]
      exact declares _ carries
  · intro part among symbolId carries
    rw [List.mem_singleton.mp among] at carries ⊢
    obtain ⟨other, found⟩ := declared symbolId carries
    rw [Contents.append_assoc] at found
    exact ⟨type, other, _, found, declares symbolId carries⟩

theorem declaration {β : Type} {isVariable : Bool} {decl : Element} {name : String}
    {typed : Meaning Address} {rest : Address → Meaning β}
    (named : getAttribute decl "name" = some name) (silent : Processes (fun _ => []) typed)
    (type : ∀ said type more, typed said = .ok (type, more) →
      if isVariable then ∃ typeId, getAttribute decl "type-id" = some typeId ∧ type = .type typeId
      else ∃ content mentions, Mentions.functionType decl = .ok (content, mentions) ∧
        (type, content) ∈ more.entries)
    (last : ∀ type, Processes (fun _ => []) (rest type)) :
    Processes (fun _ => [.declaration isVariable scopeName decl])
      (typed >>= fun type => Meaning.declare (getAttribute decl "elf-symbol-id") type
        (scopeName ++ name) >>= fun _ => rest type) := by
  intro said seen value more defined means
  obtain ⟨type', one, two, meansOne, meansTwo, all⟩ := Meaning.ok_of_bind means
  cases all
  obtain ⟨_, three, four, meansThree, meansFour, all⟩ := Meaning.ok_of_bind meansTwo
  cases all
  have before := silent said seen type' one defined meansOne
  have accounts : Accounts said [.declaration isVariable scopeName decl] (one ++ three) := by
    refine declaring before meansThree ?_
    intro symbolId carries
    refine ⟨carries, ⟨name, named, rfl⟩, ?_⟩
    have own := type said type' one meansOne
    cases isVariable with
    | true => exact own
    | false =>
      obtain ⟨content, mentions, read, among⟩ := own
      exact ⟨content, mentions, read, List.mem_append_left _ among⟩
  have later : (said ++ one ++ three).Defined (seen ++ definedTypes [.declaration isVariable
      scopeName decl]) := by
    rw [Contents.append_assoc]
    exact defined.append accounts.toTallies
  have after := last type' _ _ value four later meansFour
  rw [Contents.append_assoc] at after
  have whole := accounts.append after
  rwa [Contents.append_assoc] at whole

theorem variableDecl (decl : Element) :
    Processes (fun _ => [.declaration true scopeName decl])
      (Meaning.variableDecl scopeName decl) := by
  unfold Meaning.variableDecl
  apply ofExcept_bind
  intro name given
  have declared := @declaration scopeName Unit true decl name (Meaning.mentioning (.edge decl))
    (fun _ => Pure.pure ()) (getAttribute_of_ok given) (mentioning _) ?_ (fun _ => pure ())
  · simpa using declared
  · intro said type more means
    unfold Meaning.mentioning at means
    split at means
    · rename_i read
      cases means
      exact Mentions.edge_ok read
    · cases means

theorem functionDecl (corpus : Nat) (decl : Element) :
    Processes (fun _ => [.declaration false scopeName decl])
      (Meaning.functionDecl corpus scopeName decl) := by
  unfold Meaning.functionDecl
  apply ofExcept_bind
  intro name given
  apply mentioning_bind
  intro content noted read
  cases carried : getAttribute decl "elf-symbol-id" with
  | none =>
    intro said seen value more _ means
    cases means
    refine ⟨⟨rfl, rfl⟩, List.forall_mem_nil _, ?_⟩
    intro part among symbolId carries
    rw [List.mem_singleton.mp among] at carries
    exact absurd (carried.symm.trans carries) nofun
  | some symbolId =>
    have declared := @declaration scopeName Unit false decl name
      (Meaning.part .function (.symbol corpus symbolId) content) (fun _ => Pure.pure ())
      (getAttribute_of_ok given)
        (part .function content (Mentions.functionType_plain _ _ _ read)) ?_
      (fun _ => pure ())
    · rw [carried] at declared
      simpa using declared
    · rintro said type more ⟨⟩
      exact ⟨content, noted, read, List.mem_singleton_self _⟩

/-- A definition with nothing inside. -/
theorem single {element : Element} {mentions : Mentions Content}
    (same : ∀ content noted, mentions = .ok (content, noted) →
      content.integer?.map (fun node => (Address.type typeId, node)) =
        (Processed.definition typeId scopeName element).integer?) :
    Processes (fun _ => [.definition typeId scopeName element])
      (Meaning.single (.type typeId) mentions) := by
  unfold Meaning.single
  apply mentioning_bind
  intro content noted read
  exact define content (same content noted read)

theorem integer?_none {element : Element} (other : element.name ≠ "type-decl") :
    (Processed.definition typeId scopeName element).integer? = none := if_neg other

theorem single_plain {element : Element} {mentions : Mentions Content}
    (other : element.name ≠ "type-decl") (plain : mentions.Plain) :
    Processes (fun _ => [.definition typeId scopeName element])
      (Meaning.single (.type typeId) mentions) := by
  apply single
  intro content noted read
  rw [integer?_none other, plain content noted read]
  rfl

theorem chain {element : Element} (other : element.name ≠ "type-decl")
    (content : Address → Content) (contents : List (Address → Content)) (type : Address)
    (plain : ∀ content' ∈ content :: contents, ∀ type, (content' type).integer? = none) :
    Processes (fun _ => [.definition typeId scopeName element])
      (Meaning.chain owner (.type typeId) content contents type) := by
  induction contents generalizing content type with
  | nil =>
    apply define
    rw [integer?_none other, plain content List.mem_cons_self type]
    rfl
  | cons next contents ih =>
    unfold Meaning.chain
    rw [← @inSequence_nil fun _ => [Processed.definition typeId scopeName element]]
    apply bind (part .chain (content type) (plain content List.mem_cons_self type))
    intro inner
    exact ih next inner fun content' among => plain content' (List.mem_cons_of_mem _ among)

theorem qualified {element : Element} (other : element.name ≠ "type-decl") :
    Processes (fun _ => [.definition typeId scopeName element])
      (Meaning.qualified owner (.type typeId) element) := by
  unfold Meaning.qualified
  apply mentioning_bind
  rintro ⟨type, qualifier, qualifiers⟩ _ _
  apply chain other
  intro content among type
  rcases List.mem_cons.mp among with rfl | later
  · rfl
  · obtain ⟨_, _, rfl⟩ := List.mem_map.mp later
    rfl

theorem array {element : Element} (other : element.name ≠ "type-decl") :
    Processes (fun _ => [.definition typeId scopeName element])
      (Meaning.array owner (.type typeId) element) := by
  unfold Meaning.array
  apply mentioning_bind
  rintro ⟨type, size, sizes⟩ _ _
  apply chain other
  intro content among type
  rcases List.mem_cons.mp among with rfl | later
  · rfl
  · obtain ⟨_, _, rfl⟩ := List.mem_map.mp later
    rfl

theorem getOnlyChild_ok {name : String} {element decl : Element}
    (only : getOnlyChild name element = .ok decl) : element.children = [decl] := by
  unfold getOnlyChild at only
  split at only
  · rename_i children
    cases only
    exact children
  · cases only

theorem dataMember (isStruct : Bool) (attributes : List (String × String))
    (elements : List Element) :
    Processes (processedChild (.mk "data-member" attributes elements) scopeName)
      (Meaning.dataMember owner scopeName isStruct (.mk "data-member" attributes elements)) := by
  unfold Meaning.dataMember processedChild
  rw [if_pos rfl]
  apply ofExcept_bind
  intro decl only
  obtain rfl : elements = [decl] := getOnlyChild_ok only
  apply ofExcept_bind
  intro _ _
  apply ofExcept_bind
  intro isStatic given
  rw [given]
  cases isStatic with
  | true =>
    have isTrue : (Except.ok true : Except Error Bool).toOption = some true := rfl
    rw [if_pos isTrue, if_pos rfl, ← @inSequence_nil_right fun _ => [decl].map _]
    apply bind (variableDecl decl)
    intro _
    exact pure none
  | false =>
    rw [if_neg Bool.false_ne_true, if_neg (by decide)]
    apply mentioning_bind
    intro content noted read
    rw [← @inSequence_nil fun _ => []]
    apply bind (part .member content (Mentions.dataMember_plain _ _ _ _ _ read))
    intro address
    exact pure (some address)

theorem memberFunction (attributes : List (String × String)) (elements : List Element) :
    Processes (processedChild (.mk "member-function" attributes elements) scopeName)
      (Meaning.memberFunction owner scopeName (.mk "member-function" attributes elements)) := by
  unfold Meaning.memberFunction processedChild
  rw [if_neg (by decide), if_neg (by decide), if_pos rfl]
  apply ofExcept_bind
  intro decl only
  obtain rfl : elements = [decl] := getOnlyChild_ok only
  apply ofExcept_bind
  intro _ _
  apply ofExcept_bind
  intro mangledName _
  apply ofExcept_bind
  intro name given
  apply mentioning_bind
  intro content noted read
  apply declaration (getAttribute_of_ok given)
    (part .function content (Mentions.functionType_plain _ _ _ read))
  · rintro said type more ⟨⟩
    exact ⟨content, noted, read, List.mem_singleton_self _⟩
  · intro type
    apply ofExcept_bind
    rintro ⟨kind, vtableOffset⟩ _
    exact part .method _ rfl

theorem baseClass (element : Element) :
    Processes (fun _ => []) (Meaning.baseClass owner element) := by
  unfold Meaning.baseClass
  apply mentioning_bind
  intro content noted read
  exact part .baseClass content (Mentions.baseClass_plain _ _ _ read)

theorem structUnion {isStruct : Bool} {element : Element} (aggregate : element.IsAggregate)
    (kind : decide (element.name = "class-decl") = isStruct)
    (near : ProcessesMembers inner members) :
    Processes (processedType inner typeId scopeName element)
      (Meaning.structUnion scopeName members (.type typeId) isStruct element) := by
  have other : element.name ≠ "type-decl" := by
    rcases aggregate with named | named
    · rw [named]
      decide
    · rw [named]
      decide
  unfold Meaning.structUnion processedType processedInside
  rw [if_pos aggregate, kind]
  apply ofExcept_bind
  intro attributes given
  simp only [given]
  apply ite
  · intro forward
    rw [if_pos forward, inSequence_nil]
    apply define
    rw [integer?_none other]
    rfl
  · intro complete
    rw [if_neg complete]
    apply ofExcept_bind
    intro bits _
    apply bind (near _ isStruct attributes.kind _)
    intro made
    apply define
    rw [integer?_none other]
    rfl

theorem processedType_plain {element : Element} (plain : ¬ element.IsAggregate) :
    processedType inner typeId scopeName element =
      fun _ => [.definition typeId scopeName element] := by
  unfold processedType processedInside
  rw [if_neg plain, inSequence_nil]

/-- The members of a class may define these types. -/
theorem userDefinedType {element : Element} {message : String}
    (near : ProcessesMembers inner members) :
    Processes (processedType inner typeId scopeName element)
      (Meaning.userDefinedType scopeName members (.type typeId) element >>= fun known =>
        Stg.check known message) := by
  have known : ∀ {these : List String → List Processed} {definition : Meaning Unit},
      Processes these definition → Processes these
        ((do definition; return true) >>= fun known => Stg.check known message) := by
    intro these definition own
    simp only [bind_assoc, pure_bind]
    rw [← @inSequence_nil_right these]
    apply bind own
    intro _
    exact check true message
  unfold Meaning.userDefinedType
  by_cases typedef : element.name = "typedef-decl"
  · have plain : ¬ element.IsAggregate := by
      unfold Element.IsAggregate
      rw [typedef]
      decide
    rw [if_pos typedef, processedType_plain plain]
    apply known
    apply single_plain _ (Mentions.typedef_plain _ _)
    rw [typedef]
    decide
  rw [if_neg typedef]
  by_cases class_ : element.name = "class-decl"
  · rw [if_pos class_]
    exact known (structUnion (.inl class_) (decide_eq_true class_) near)
  rw [if_neg class_]
  by_cases union : element.name = "union-decl"
  · rw [if_pos union]
    exact known (structUnion (.inr union) (decide_eq_false class_) near)
  rw [if_neg union]
  have plain : ¬ element.IsAggregate := not_or.mpr ⟨class_, union⟩
  by_cases enum : element.name = "enum-decl"
  · rw [if_pos enum, processedType_plain plain]
    apply known
    apply single_plain _ (Mentions.enum_plain _ _)
    rw [enum]
    decide
  · rw [if_neg enum, pure_bind]
    exact throw _

theorem type {element : Element} (near : ProcessesMembers inner members) :
    Processes (processedType inner typeId scopeName element)
      (Meaning.type owner scopeName members (.type typeId) element) := by
  have simple : ∀ {name : String} {definition : Meaning Unit}, element.name = name →
      name ≠ "class-decl" → name ≠ "union-decl" →
      Processes (fun _ => [.definition typeId scopeName element]) definition →
        Processes (processedType inner typeId scopeName element) definition := by
    rintro name definition rfl class_ union own
    rwa [processedType_plain (not_or.mpr ⟨class_, union⟩)]
  have other : ∀ {name : String}, element.name = name → name ≠ "type-decl" →
      element.name ≠ "type-decl" := by
    rintro name rfl different
    exact different
  unfold Meaning.type
  apply ite
  · intro named
    exact simple named (by decide) (by decide)
      (single_plain (other named (by decide)) (Mentions.functionType_plain _))
  intro _
  apply ite
  · intro named
    exact simple named (by decide) (by decide)
      (single_plain (other named (by decide)) (Mentions.pointer_plain _ _))
  intro _
  apply ite
  · intro named
    exact simple named (by decide) (by decide)
      (single_plain (other named (by decide)) (Mentions.pointer_plain _ _))
  intro _
  apply ite
  · intro named
    exact simple named (by decide) (by decide) (qualified (other named (by decide)))
  intro _
  apply ite
  · intro named
    exact simple named (by decide) (by decide) (array (other named (by decide)))
  intro _
  apply ite
  · intro named
    exact simple named (by decide) (by decide)
      (single fun content noted read => Mentions.typeDecl_integer named read)
  · intro _
    exact userDefinedType near

theorem memberDecl {decl : Element} (near : ProcessesMembers inner members) :
    Processes
      (match getAttribute decl "id" with
        | some typeId => processedUnlessDefined inner typeId scopeName decl
        | none => fun _ => [])
      (Meaning.memberDecl scopeName members decl) := by
  unfold Meaning.memberDecl
  apply ofExcept_bind
  intro typeId given
  rw [getAttribute_of_ok given]
  exact unlessDefined (userDefinedType near)

theorem nonType (corpus : Nat) {element : Element} {meaning : String → Meaning Unit}
    (near : ∀ scopeName, Processes (inner scopeName) (meaning scopeName)) :
    Processes (processedNonType inner scopeName element)
      (Meaning.nonType corpus scopeName meaning element) := by
  unfold processedNonType Meaning.nonType
  by_cases variable_ : element.name = "var-decl"
  · rw [if_pos variable_, if_pos variable_]
    exact variableDecl element
  rw [if_neg variable_, if_neg variable_]
  by_cases function : element.name = "function-decl"
  · rw [if_pos function, if_pos function]
    exact functionDecl corpus element
  rw [if_neg function, if_neg function]
  by_cases namespace_ : element.name = "namespace-decl"
  · rw [if_pos namespace_, if_pos namespace_]
    apply ofExcept_bind
    intro name named
    rw [getAttribute_of_ok named]
    exact near _
  · rw [if_neg namespace_, if_neg namespace_]
    exact die _

end Processes

/- The recursion over the elements. -/

section

variable {owner : Owner}

mutual

theorem members_processes (element : Element) (scopeName : String) (isStruct : Bool)
    (kind : StructUnion.Kind) (made : Meaning.Members) :
    Processes (processedMembers element scopeName)
      (Meaning.members owner element scopeName isStruct kind made) :=
  match element with
  | .mk name attributes elements => by
    unfold processedMembers Meaning.members
    exact children_processes elements scopeName isStruct kind made

theorem children_processes (elements : List Element) (scopeName : String) (isStruct : Bool)
    (kind : StructUnion.Kind) (made : Meaning.Members) :
    Processes (processedChildren elements scopeName)
      (Meaning.children owner elements scopeName isStruct kind made) :=
  match elements with
  | [] => by
    unfold processedChildren Meaning.children
    exact Processes.pure made
  | element :: rest => by
    unfold processedChildren Meaning.children
    apply Processes.bind (child_processes element scopeName isStruct kind made)
    intro made'
    exact children_processes rest scopeName isStruct kind made'

theorem child_processes (element : Element) (scopeName : String) (isStruct : Bool)
    (kind : StructUnion.Kind) (made : Meaning.Members) :
    Processes (processedChild element scopeName)
      (Meaning.child owner element scopeName isStruct kind made) :=
  match element with
  | .mk name attributes elements => by
    rw [← @inSequence_nil_right (processedChild _ _)]
    unfold Meaning.child
    by_cases data : name = "data-member"
    · subst data
      rw [if_pos rfl]
      apply Processes.bind (Processes.dataMember isStruct attributes elements)
      intro member
      exact Processes.pure _
    rw [if_neg data]
    by_cases type : name = "member-type"
    · subst type
      have inside : processedChild (.mk "member-type" attributes elements) scopeName =
          processedMemberType elements scopeName := by
        rw [processedChild, if_neg (by decide), if_pos rfl]
      rw [if_pos rfl, inside]
      apply Processes.bind (memberType_processes elements scopeName)
      intro _
      exact Processes.pure made
    rw [if_neg type]
    by_cases base : name = "base-class"
    · subst base
      have inside : processedChild (.mk "base-class" attributes elements) scopeName =
          fun _ => [] := by
        rw [processedChild, if_neg (by decide), if_neg (by decide), if_neg (by decide)]
      rw [if_pos rfl, inside]
      apply Processes.bind (Processes.baseClass _)
      intro base
      exact Processes.pure _
    rw [if_neg base]
    by_cases method : name = "member-function"
    · subst method
      rw [if_pos rfl]
      apply Processes.bind (Processes.memberFunction attributes elements)
      intro method
      exact Processes.pure _
    · rw [if_neg method]
      exact Processes.die _

theorem memberType_processes (elements : List Element) (scopeName : String) :
    Processes (processedMemberType elements scopeName)
      (Meaning.memberType owner elements scopeName) :=
  match elements with
  | [] => by
    unfold Meaning.memberType
    exact Processes.die _
  | [decl] => by
    unfold processedMemberType Meaning.memberType
    apply Processes.memberDecl
    intro scopeName' isStruct kind made
    exact members_processes decl scopeName' isStruct kind made
  | _ :: _ :: _ => by
    unfold Meaning.memberType
    exact Processes.die _

end

end

/- Scopes. -/

mutual

theorem scope_processes (corpus : Nat) (elements : List Element) (scopeName : String) :
    Processes (processedScope elements scopeName) (Meaning.scope corpus elements scopeName) :=
  match elements with
  | [] => by
    unfold processedScope Meaning.scope
    exact Processes.pure ()
  | element :: rest => by
    unfold processedScope Meaning.scope
    apply Processes.bind (member_processes corpus element scopeName)
    intro _
    exact scope_processes corpus rest scopeName

theorem member_processes (corpus : Nat) (element : Element) (scopeName : String) :
    Processes (processedElement element scopeName) (Meaning.member corpus element scopeName) :=
  match element with
  | .mk name attributes elements => by
    unfold processedElement Meaning.member
    cases given : getAttribute (.mk name attributes elements) "id" with
    | some typeId =>
      apply Processes.unlessDefined
      apply Processes.type
      intro scopeName' isStruct kind made
      exact members_processes _ scopeName' isStruct kind made
    | none =>
      exact Processes.nonType corpus fun scopeName' => scope_processes corpus elements scopeName'

end

theorem corpusChild_processes (number : Nat) (element : Element) :
    Processes (processedCorpusChild element) (Meaning.corpusChild number element) := by
  unfold processedCorpusChild Meaning.corpusChild
  by_cases table : element.name = "elf-function-symbols" ∨ element.name = "elf-variable-symbols"
  · rw [if_pos table, if_neg (table_not_scope table)]
    exact Processes.ofExcept _
  rw [if_neg table]
  by_cases needed : element.name = "elf-needed"
  · have other : element.name ≠ "abi-instr" := by
      rw [needed]
      decide
    rw [if_pos needed, if_neg other]
    exact Processes.pure _
  rw [if_neg needed]
  by_cases scope : element.name = "abi-instr"
  · rw [if_pos scope, if_pos scope, ← @inSequence_nil_right (processedScope _ _)]
    apply Processes.bind (scope_processes number element.children "")
    intro _
    exact Processes.pure _
  · rw [if_neg scope, if_neg scope]
    exact Processes.die _

theorem corpusChildren_processes (number : Nat) (elements : List Element) :
    Processes (processedCorpusChildren elements) (Meaning.corpusChildren number elements) := by
  induction elements with
  | nil => exact Processes.pure _
  | cons element rest ih =>
    unfold processedCorpusChildren Meaning.corpusChildren
    apply Processes.bind (corpusChild_processes number element)
    intro first
    rw [← @inSequence_nil_right (processedCorpusChildren rest)]
    apply Processes.bind ih
    intro later
    exact Processes.pure _

theorem symbol_processes (number : Nat) (tables : Tables) (id : String) (info : SymbolInfo) :
    Processes (fun _ => []) (Meaning.symbol number tables id info) := by
  unfold Meaning.symbol
  have declared : Processes (fun _ => []) (Meaning.declared (tables.main id)) := by
    rintro said seen value more _ ⟨⟩
    exact .silent rfl rfl rfl
  rw [← @inSequence_nil fun _ => []]
  apply Processes.bind declared
  intro declaration
  apply Processes.ofExcept_bind
  intro node _
  exact Processes.part .symbol _ rfl

theorem symbolsOf_processes (number : Nat) (tables : Tables) (ids : List String)
    (symbols : List (String × Address)) :
    Processes (fun _ => []) (Meaning.symbolsOf number tables ids symbols) := by
  induction ids generalizing symbols with
  | nil => exact Processes.pure symbols
  | cons id ids ih =>
    unfold Meaning.symbolsOf
    cases tables.infos.lookup id with
    | none => exact ih symbols
    | some info =>
      rw [← @inSequence_nil fun _ => []]
      apply Processes.bind (symbol_processes number tables id info)
      intro address
      exact ih _

/- Corpora and the root. -/

section

variable {said more : Contents} {seen : List String} {iteration : Iteration} {number : Nat}

theorem corpus_tallies {corpus : Element} {symbols : List (String × Address)}
    (apart : said.declarations = []) (defined : said.Defined seen)
    (means : Meaning.corpus number iteration corpus said = .ok (symbols, more)) :
    Tallies (processedCorpus corpus seen) more := by
  obtain ⟨tables, first, later, readChildren, _, _, built, rfl⟩ :=
    (Meaning.corpus_eq_ok_iff apart).mp means
  have accounts := corpusChildren_processes number _ said seen tables first defined readChildren
  have after := symbolsOf_processes number tables _ _ (said ++ first) _ symbols later
    (defined.append accounts.toTallies) built
  have all := accounts.toTallies.append after.toTallies
  rw [List.append_nil] at all
  exact ⟨all.types, all.integers⟩

theorem corpora_tallies {corpora : List Element} {table table' : SymbolTable}
    (apart : said.declarations = []) (defined : said.Defined seen)
    (means : Meaning.corpora iteration number corpora table said = .ok (table', more)) :
    Tallies (processedCorpora corpora seen) more := by
  induction corpora generalizing number said seen table more with
  | nil =>
    cases means
    exact ⟨rfl, rfl⟩
  | cons corpus rest ih =>
    obtain ⟨_, _, _, one, two, _, _, meansOne, _, meansTwo, rfl⟩ := corpora_cons_iff.mp means
    have first := corpus_tallies apart defined meansOne
    have apart' : (said ++ one).declarations = [] := by
      rw [Contents.declarations_append, apart, corpus_apart apart meansOne]
      rfl
    exact first.append (ih apart' (defined.append first) meansTwo)

theorem part_tallies {role : Role} {owner : Owner} {content : Content} {address : Address}
    (plain : content.integer? = none)
    (means : Meaning.part role owner content said = .ok (address, more)) : Tallies [] more := by
  cases means
  refine ⟨rfl, ?_⟩
  simp [Contents.integers, plain]

/-- The document says what the definitions say that are processed. -/
theorem read_tallies {root : Element} {address : Address} {contents : Contents}
    (means : read iteration root = .ok (address, contents)) :
    Tallies (processedRoot root) contents := by
  have nothing : ({} : Contents).Defined [] := fun typeId =>
    iff_of_false List.not_mem_nil List.not_mem_nil
  unfold read Meaning.document at means
  unfold processedRoot
  by_cases group : root.name = "abi-corpus-group"
  · rw [if_pos group] at means ⊢
    obtain ⟨table, first, later, meansFirst, meansLater, all⟩ := Meaning.ok_of_bind means
    have whole := (corpora_tallies rfl nothing meansFirst).append (part_tallies rfl meansLater)
    rw [List.append_nil] at whole
    rwa [show contents = first ++ later from all]
  rw [if_neg group] at means ⊢
  by_cases corpus : root.name = "abi-corpus"
  · rw [if_pos corpus] at means
    obtain ⟨symbols, first, later, meansFirst, rest, all⟩ := Meaning.ok_of_bind means
    cases joined : SymbolTable.join "" symbols .empty with
    | error reason =>
      rw [joined] at rest
      cases rest
    | ok table =>
      rw [joined, ofExcept_ok, pure_bind] at rest
      have whole := (corpus_tallies rfl nothing meansFirst).append (part_tallies rfl rest)
      rw [List.append_nil] at whole
      rwa [show contents = first ++ later from all]
  · rw [if_neg corpus] at means
    cases means

end

end Stg.AbiXml
