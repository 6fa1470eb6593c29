import Stg.AbiXml.Reads
import Stg.AbiXml.Reordering

set_option autoImplicit false

/- The definitions and declarations of a document that are processed, in this order. A
definition of a type that has been defined before is passed over with all that is inside. -/
namespace Stg.AbiXml

/-- An element that is processed, and the name of its scope. -/
inductive Processed where
  | definition (typeId scopeName : String) (element : Element)
  | declaration (isVariable : Bool) (scopeName : String) (decl : Element)

namespace Processed

def typeId? : Processed → Option String
  | .definition typeId _ _ => some typeId
  | .declaration _ _ _ => none

/-- The ELF symbol id that a declaration carries. -/
def symbolId? : Processed → Option String
  | .definition _ _ _ => none
  | .declaration _ _ decl => getAttribute decl "elf-symbol-id"

/-- The integer that is defined. -/
def integer? : Processed → Option (Address × Integer)
  | .definition typeId scopeName element =>
    if element.name = "type-decl" then
      match readTypeDecl scopeName element with
      | .ok (.integer node) => some (.type typeId, node)
      | _ => none
    else none
  | .declaration _ _ _ => none

end Processed

def definedTypes (parts : List Processed) : List String := parts.filterMap Processed.typeId?

/-- One after the other, given the type ids that have been defined before. -/
def inSequence (first later : List String → List Processed) : List String → List Processed :=
  fun seen => first seen ++ later (seen ++ definedTypes (first seen))

section

variable (inner : String → List String → List Processed)

/-- What is inside of the definition of a struct or union. -/
def processedInside (scopeName : String) (element : Element) : List String → List Processed :=
  if element.IsAggregate then
    match readStructUnion (element.name = "class-decl") element with
    | .ok attributes =>
      if attributes.forward then fun _ => [] else inner (attributes.pushed scopeName)
    | .error _ => fun _ => []
  else fun _ => []

/-- The definition of a type comes after what is inside of it. -/
def processedType (typeId scopeName : String) (element : Element) : List String → List Processed :=
  inSequence (processedInside inner scopeName element)
    fun _ => [.definition typeId scopeName element]

def processedUnlessDefined (typeId scopeName : String) (element : Element) :
    List String → List Processed :=
  fun seen => if typeId ∈ seen then [] else processedType inner typeId scopeName element seen

def processedNonType (scopeName : String) (element : Element) : List String → List Processed :=
  if element.name = "var-decl" then fun _ => [.declaration true scopeName element]
  else if element.name = "function-decl" then fun _ => [.declaration false scopeName element]
  else if element.name = "namespace-decl" then
    inner (scopeName ++ (getAttribute element "name").getD "" ++ "::")
  else fun _ => []

end

mutual

def processedMembers (element : Element) (scopeName : String) : List String → List Processed :=
  match element with
  | .mk _ _ elements => processedChildren elements scopeName

def processedChildren (elements : List Element) (scopeName : String) :
    List String → List Processed :=
  match elements with
  | [] => fun _ => []
  | element :: rest => inSequence (processedChild element scopeName) (processedChildren rest scopeName)

/-- Only static data members and member functions are declarations. -/
def processedChild (element : Element) (scopeName : String) : List String → List Processed :=
  match element with
  | .mk name attributes elements =>
    if name = "data-member" then
      if (readAttribute parseBool (.mk name attributes elements) "static" false).toOption = some true
      then fun _ => elements.map (.declaration true scopeName)
      else fun _ => []
    else if name = "member-type" then processedMemberType elements scopeName
    else if name = "member-function" then fun _ => elements.map (.declaration false scopeName)
    else fun _ => []

def processedMemberType (elements : List Element) (scopeName : String) :
    List String → List Processed :=
  match elements with
  | [decl] =>
    match getAttribute decl "id" with
    | some typeId => processedUnlessDefined (processedMembers decl) typeId scopeName decl
    | none => fun _ => []
  | _ => fun _ => []

end

mutual

def processedScope (elements : List Element) (scopeName : String) : List String → List Processed :=
  match elements with
  | [] => fun _ => []
  | element :: rest => inSequence (processedElement element scopeName) (processedScope rest scopeName)

def processedElement (element : Element) (scopeName : String) : List String → List Processed :=
  match element with
  | .mk name attributes elements =>
    match getAttribute (.mk name attributes elements) "id" with
    | some typeId =>
      processedUnlessDefined (processedMembers (.mk name attributes elements)) typeId scopeName
        (.mk name attributes elements)
    | none => processedNonType (processedScope elements) scopeName (.mk name attributes elements)

end

def processedCorpusChild (element : Element) : List String → List Processed :=
  if element.name = "abi-instr" then processedScope element.children "" else fun _ => []

def processedCorpusChildren : List Element → List String → List Processed
  | [] => fun _ => []
  | element :: rest => inSequence (processedCorpusChild element) (processedCorpusChildren rest)

def processedCorpus (corpus : Element) : List String → List Processed :=
  processedCorpusChildren corpus.children

/-- The definitions of all corpora of a group are in the same graph. -/
def processedCorpora : List Element → List String → List Processed
  | [] => fun _ => []
  | corpus :: rest => inSequence (processedCorpus corpus) (processedCorpora rest)

def processedRoot (root : Element) : List Processed :=
  if root.name = "abi-corpus-group" then processedCorpora root.children []
  else processedCorpus root []

/- What they say. -/

def Address.typeId? : Address → Option String
  | .type typeId => some typeId
  | _ => none

def Content.integer? : Content → Option Integer
  | .integer node => some node
  | _ => none

namespace Contents

def typeIds (contents : Contents) : List String := contents.addresses.filterMap Address.typeId?

def integers (contents : Contents) : List (Address × Integer) :=
  contents.entries.filterMap fun entry => entry.2.integer?.map fun node => (entry.1, node)

/-- These are the types that something has been said of. -/
def Defined (contents : Contents) (seen : List String) : Prop :=
  ∀ typeId, Address.type typeId ∈ contents.addresses ↔ typeId ∈ seen

@[simp] theorem typeIds_append (first later : Contents) :
    (first ++ later).typeIds = first.typeIds ++ later.typeIds := by
  simp [typeIds]

@[simp] theorem integers_append (first later : Contents) :
    (first ++ later).integers = first.integers ++ later.integers := by
  simp [integers]

theorem mem_typeIds {contents : Contents} {typeId : String} :
    typeId ∈ contents.typeIds ↔ Address.type typeId ∈ contents.addresses := by
  unfold typeIds
  rw [List.mem_filterMap]
  constructor
  · rintro ⟨address, among, same⟩
    cases address with
    | type =>
      cases same
      exact among
    | variadic | part => cases same
  · intro among
    exact ⟨_, among, rfl⟩

end Contents

/-- The declaration is for the symbol, with the type and the full name. -/
def Processed.Declares (more : Contents) (symbolId : String) (type : Address) (name : String) :
    Processed → Prop
  | .definition _ _ _ => False
  | .declaration isVariable scopeName decl =>
    getAttribute decl "elf-symbol-id" = some symbolId ∧
      (∃ own, getAttribute decl "name" = some own ∧ name = scopeName ++ own) ∧
      if isVariable then ∃ typeId, getAttribute decl "type-id" = some typeId ∧ type = .type typeId
      else ∃ content mentions, Mentions.functionType decl = .ok (content, mentions) ∧
        (type, content) ∈ more.entries

/-- What is said defines the types and the integers of the parts. -/
structure Tallies (parts : List Processed) (more : Contents) : Prop where
  types : more.typeIds = definedTypes parts
  integers : more.integers = parts.filterMap Processed.integer?

/-- What is said after `said` is what the parts say. -/
structure Accounts (said : Contents) (parts : List Processed) (more : Contents) : Prop
    extends Tallies parts more where
  declarations : ∀ declaration ∈ more.declarations, ∃ part ∈ parts,
    part.Declares more declaration.1 declaration.2.1 declaration.2.2
  declared : ∀ part ∈ parts, ∀ symbolId, part.symbolId? = some symbolId → ∃ type name own,
    (said ++ more).declarations.lookup symbolId = some (type, name) ∧
      part.Declares more symbolId type own

variable {said more more' : Contents} {parts parts' : List Processed}

theorem Processed.Declares.mono {part : Processed} {symbolId name : String} {type : Address}
    (declares : part.Declares more symbolId type name)
    (grows : ∀ entry ∈ more.entries, entry ∈ more'.entries) :
    part.Declares more' symbolId type name := by
  cases part with
  | definition => exact declares
  | declaration isVariable scopeName decl =>
    obtain ⟨carries, named, typed⟩ := declares
    refine ⟨carries, named, ?_⟩
    cases isVariable with
    | true => exact typed
    | false =>
      obtain ⟨content, mentions, read, among⟩ := typed
      exact ⟨content, mentions, read, grows _ among⟩

theorem Tallies.append (one : Tallies parts more) (two : Tallies parts' more') :
    Tallies (parts ++ parts') (more ++ more') where
  types := by
    rw [Contents.typeIds_append, one.types, two.types, definedTypes, definedTypes, definedTypes,
      List.filterMap_append]
  integers := by rw [Contents.integers_append, one.integers, two.integers, List.filterMap_append]

theorem Accounts.append (one : Accounts said parts more)
    (two : Accounts (said ++ more) parts' more') :
    Accounts said (parts ++ parts') (more ++ more') where
  toTallies := one.toTallies.append two.toTallies
  declarations := by
    intro declaration among
    rw [Contents.declarations_append, List.mem_append] at among
    rcases among with early | late
    · obtain ⟨part, present, declares⟩ := one.declarations declaration early
      refine ⟨part, List.mem_append_left _ present, declares.mono ?_⟩
      exact fun entry among => List.mem_append_left _ among
    · obtain ⟨part, present, declares⟩ := two.declarations declaration late
      refine ⟨part, List.mem_append_right _ present, declares.mono ?_⟩
      exact fun entry among => List.mem_append_right _ among
  declared := by
    intro part among symbolId carries
    rcases List.mem_append.mp among with early | late
    · obtain ⟨type, name, own, found, declares⟩ := one.declared part early symbolId carries
      refine ⟨type, name, own, ?_, declares.mono fun entry among => List.mem_append_left _ among⟩
      rw [← Contents.append_assoc, Contents.declarations_append, List.lookup_append, found]
      rfl
    · obtain ⟨type, name, own, found, declares⟩ := two.declared part late symbolId carries
      refine ⟨type, name, own, ?_, declares.mono fun entry among => List.mem_append_right _ among⟩
      rwa [← Contents.append_assoc]

theorem Accounts.silent (types : more.typeIds = []) (integers : more.integers = [])
    (declarations : more.declarations = []) : Accounts said [] more where
  types := types
  integers := integers
  declarations := by
    rw [declarations]
    exact List.forall_mem_nil _
  declared := List.forall_mem_nil _

theorem Contents.Defined.append {seen : List String} (defined : said.Defined seen)
    (tallies : Tallies parts more) : (said ++ more).Defined (seen ++ definedTypes parts) := by
  intro typeId
  rw [addresses_append, List.mem_append, List.mem_append, defined typeId, ← tallies.types,
    mem_typeIds]

/-- The reading says what these parts say, given the types that have been defined before. -/
def Processes {β : Type} (parts : List String → List Processed) (meaning : Meaning β) : Prop :=
  ∀ said seen value more, said.Defined seen → meaning said = .ok (value, more) →
    Accounts said (parts seen) more

section

variable {first later : List String → List Processed}

@[simp] theorem inSequence_nil : inSequence (fun _ => []) later = later := by
  funext seen
  simp [inSequence, definedTypes]

@[simp] theorem inSequence_nil_right : inSequence first (fun _ => []) = first := by
  funext seen
  simp [inSequence]

end

namespace Processes

variable {β δ : Type} {these those : List String → List Processed} {meaning meaning' : Meaning β}
  {rest : β → Meaning δ} {typeId scopeName : String}

theorem bind (first : Processes these meaning) (second : ∀ value, Processes those (rest value)) :
    Processes (inSequence these those) (meaning >>= rest) := by
  intro said seen value more defined means
  obtain ⟨middle, one, two, meansOne, meansTwo, all⟩ := Meaning.ok_of_bind means
  cases all
  have accounts := first said seen middle one defined meansOne
  exact accounts.append
    (second middle (said ++ one) _ value two (defined.append accounts.toTallies) meansTwo)

theorem pure (value : β) : Processes (fun _ => []) (Pure.pure value) := by
  intro said seen value' more _ means
  cases means
  exact .silent rfl rfl rfl

theorem throw (reason : Error) : Processes these (MonadExcept.throw reason : Meaning β) :=
  fun _ _ _ _ _ => nofun

theorem ite {condition : Prop} [Decidable condition] (yes : condition → Processes these meaning)
    (no : ¬ condition → Processes these meaning') :
    Processes these (if condition then meaning else meaning') := by
  by_cases holds : condition
  · rw [if_pos holds]
    exact yes holds
  · rw [if_neg holds]
    exact no holds

/-- The rest need only process them for the value that there is. -/
theorem ofExcept_bind {result : Except Error β}
    (second : ∀ value, result = .ok value → Processes these (rest value)) :
    Processes these (Stg.ofExcept result >>= rest) := by
  cases result with
  | ok value =>
    rw [ofExcept_ok, pure_bind]
    exact second value rfl
  | error reason => exact throw reason

theorem ofExcept (result : Except Error β) : Processes (fun _ => []) (Stg.ofExcept result) := by
  cases result with
  | ok value => exact pure value
  | error reason => exact throw reason

theorem check (ok : Bool) (message : String) :
    Processes (fun _ => []) (Stg.check ok message : Meaning Unit) := by
  cases ok with
  | true => exact pure ()
  | false => exact throw _

theorem die (message : String) : Processes these (Stg.die message : Meaning β) := throw _

/-- What is only mentioned is processed elsewhere. -/
theorem mentioning (mentions : Mentions β) :
    Processes (fun _ => []) (Meaning.mentioning mentions) := by
  intro said seen value more _ means
  unfold Meaning.mentioning at means
  split at means
  · cases means
    exact .silent rfl rfl rfl
  · cases means

theorem mentioning_bind {mentions : Mentions β}
    (second : ∀ value noted, mentions = .ok (value, noted) → Processes these (rest value)) :
    Processes these (Meaning.mentioning mentions >>= rest) := by
  cases mentions with
  | ok result =>
    intro said seen value more defined means
    obtain ⟨middle, one, two, meansOne, meansTwo, all⟩ := Meaning.ok_of_bind means
    cases all
    cases meansOne
    have silent : Accounts said [] { mentions := result.2 } := .silent rfl rfl rfl
    have same := defined.append silent.toTallies
    rw [show seen ++ definedTypes [] = seen from List.append_nil seen] at same
    have accounts := second _ _ rfl (said ++ _) seen value two same meansTwo
    exact silent.append accounts
  | error reason => exact throw reason

theorem unlinked (content : Content) : Processes (fun _ => []) (Meaning.unlinked content) := by
  intro said seen value more _ means
  cases means
  exact .silent rfl rfl rfl

theorem part {owner : Owner} (role : Role) (content : Content) (plain : content.integer? = none) :
    Processes (fun _ => []) (Meaning.part role owner content) := by
  intro said seen value more _ means
  cases means
  refine .silent rfl ?_ rfl
  simp [Contents.integers, plain]

theorem define {element : Element} (content : Content)
    (same : content.integer?.map (fun node => (Address.type typeId, node)) =
      (Processed.definition typeId scopeName element).integer?) :
    Processes (fun _ => [.definition typeId scopeName element])
      (Meaning.define (.type typeId) content) := by
  intro said seen value more _ means
  unfold Meaning.define at means
  split at means
  · cases means
  · cases means
    refine ⟨⟨rfl, ?_⟩, List.forall_mem_nil _, ?_⟩
    · simp only [Contents.integers, List.filterMap_cons, same, List.filterMap_nil]
    · intro part among symbolId carries
      rw [List.mem_singleton.mp among] at carries
      cases carries

theorem unlessDefined {definition : Address → Meaning Unit}
    (own : Processes these (definition (.type typeId))) :
    Processes (fun seen => if typeId ∈ seen then [] else these seen)
      (Meaning.unlessDefined typeId definition) := by
  unfold Meaning.unlessDefined
  apply mentioning_bind
  intro _ _ _ said seen value more defined means
  unfold Meaning.unlessIn at means
  split at means
  · rename_i present
    cases means
    dsimp only
    rw [if_pos ((defined typeId).mp present)]
    exact .silent rfl rfl rfl
  · rename_i absent
    dsimp only
    rw [if_neg fun present => absent ((defined typeId).mpr present)]
    exact own said seen value more defined means

end Processes

end Stg.AbiXml
