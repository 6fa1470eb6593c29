import Stg.AbiXml.Corpora
import Stg.AbiXml.Footprint
import Stg.Lib.Entries

set_option autoImplicit false

/- What a document says in another order. -/
namespace Stg.AbiXml

open Contents (Agree Within)

namespace Contents

/-- The same is said in some order. -/
structure Perm (contents contents' : Contents) : Prop where
  entries : contents.entries.Perm contents'.entries
  mentions : contents.mentions.Perm contents'.mentions
  unlinked : contents.unlinked.Perm contents'.unlinked
  declarations : contents.declarations.Perm contents'.declarations

variable {contents contents' contents'' first first' later later' : Contents}

theorem Perm.refl (contents : Contents) : contents.Perm contents :=
  ⟨.refl _, .refl _, .refl _, .refl _⟩

theorem Perm.trans (once : contents.Perm contents') (again : contents'.Perm contents'') :
    contents.Perm contents'' where
  entries := once.entries.trans again.entries
  mentions := once.mentions.trans again.mentions
  unlinked := once.unlinked.trans again.unlinked
  declarations := once.declarations.trans again.declarations

theorem Perm.append (one : first.Perm first') (two : later.Perm later') :
    (first ++ later).Perm (first' ++ later') where
  entries := one.entries.append two.entries
  mentions := one.mentions.append two.mentions
  unlinked := one.unlinked.append two.unlinked
  declarations := one.declarations.append two.declarations

theorem perm_swap (first later rest : Contents) :
    (first ++ (later ++ rest)).Perm (later ++ (first ++ rest)) where
  entries := perm_swap_parts _ _ _
  mentions := perm_swap_parts _ _ _
  unlinked := perm_swap_parts _ _ _
  declarations := perm_swap_parts _ _ _

theorem Perm.addresses (perm : contents.Perm contents') :
    contents.addresses.Perm contents'.addresses := perm.entries.map _

/-- What is said once is the same in any order. -/
theorem Perm.agree (perm : contents.Perm contents')
    (distinct : (contents.declarations.map (·.1)).Nodup) (these : Resource → Prop) :
    Agree these contents contents' where
  types _ _ := perm.addresses.mem_iff
  parts owner _ := Meaning.nextPart_perm owner perm.addresses
  symbols symbolId _ := (Lookup.lookup_perm distinct perm.declarations symbolId).symm

end Contents

section

variable {β δ ε : Type} {reads writes reads' writes' readsRest writesRest others : Resource → Prop}
  {meaning : Meaning β} {meaning' : Meaning δ} {meaningRest : Meaning ε}
  {said more more' : Contents}
  {value : β} {value' : δ}

/-- What has been said of others can be passed over. -/
theorem Local.skip (near : Local reads writes meaning) (within : Within others more)
    (apart : ∀ resource, others resource → ¬ reads resource) :
    meaning (said ++ more) = meaning said :=
  near.same _ _ (within.agree apart)

/-- Meanings that have nothing to do with each other can change places. -/
theorem Local.commute (near : Local reads writes meaning) (near' : Local reads' writes' meaning')
    (apart : ∀ resource, writes resource → ¬ reads' resource)
    (apart' : ∀ resource, writes' resource → ¬ reads resource)
    (means : meaning said = .ok (value, more))
    (means' : meaning' (said ++ more) = .ok (value', more')) :
    meaning' said = .ok (value', more') ∧ meaning (said ++ more') = .ok (value, more) := by
  have within := near.within said value more means
  have first : meaning' said = .ok (value', more') := by
    rw [← means', near'.skip within apart]
  have within' := near'.within said value' more' first
  exact ⟨first, by rw [near.skip within' apart', means]⟩

/-- What follows, when it reads nothing that they write, does not notice. -/
theorem Local.commute_before (near : Local reads writes meaning)
    (near' : Local reads' writes' meaning') (nearRest : Local readsRest writesRest meaningRest)
    (apart : ∀ resource, writes resource → ¬ reads' resource)
    (apart' : ∀ resource, writes' resource → ¬ reads resource)
    (free : ∀ resource, writes resource → ¬ readsRest resource)
    (free' : ∀ resource, writes' resource → ¬ readsRest resource)
    (means : meaning said = .ok (value, more))
    (means' : meaning' (said ++ more) = .ok (value', more')) :
    meaning' said = .ok (value', more') ∧ meaning (said ++ more') = .ok (value, more) ∧
      meaningRest (said ++ more' ++ more) = meaningRest (said ++ more ++ more') := by
  obtain ⟨first, second⟩ := near.commute near' apart apart' means means'
  have within := near.within _ _ _ means
  have within' := near'.within _ _ _ means'
  refine ⟨first, second, ?_⟩
  calc meaningRest (said ++ more' ++ more)
      = meaningRest said := by rw [nearRest.skip within free, nearRest.skip within' free']
    _ = meaningRest (said ++ more ++ more') := by
      rw [nearRest.skip within' free', nearRest.skip within free]

end

/-- Lists that together say nothing twice have nothing in common. -/
theorem disjoint_three {α : Type} {xs ys zs : List α} (distinct : (xs ++ (ys ++ zs)).Nodup) :
    xs.Disjoint ys ∧ xs.Disjoint zs ∧ ys.Disjoint zs := by
  obtain ⟨_, later, first⟩ := List.nodup_append'.mp distinct
  obtain ⟨between, around⟩ := List.disjoint_append_right.mp first
  exact ⟨between, around, (List.nodup_append'.mp later).2.2⟩

/- Scopes. -/

variable {corpus : Nat} {scopeName : String} {elements elements' inner inner' rest : List Element}
  {element : Element} {said more : Contents}

theorem scope_cons_iff :
    Meaning.scope corpus (element :: rest) scopeName said = .ok ((), more) ↔
      ∃ first later, Meaning.member corpus element scopeName said = .ok ((), first) ∧
        Meaning.scope corpus rest scopeName (said ++ first) = .ok ((), later) ∧
        more = first ++ later := by
  have unfolded : Meaning.scope corpus (element :: rest) scopeName = (do
      Meaning.member corpus element scopeName
      Meaning.scope corpus rest scopeName) := by
    rw [Meaning.scope]
  rw [unfolded]
  constructor
  · intro means
    obtain ⟨_, first, later, one, two, all⟩ := Meaning.ok_of_bind means
    exact ⟨first, later, one, two, all⟩
  · rintro ⟨first, later, one, two, rfl⟩
    exact Meaning.bind_ok one two

/-- A namespace with an id is not taken for a namespace. -/
theorem member_namespace_id {attributes : List (String × String)} {typeId : String}
    (given : attributes.lookup "id" = some typeId) :
    Meaning.member corpus (.mk "namespace-decl" attributes inner) scopeName =
      Meaning.member corpus (.mk "namespace-decl" attributes inner') scopeName := by
  unfold Meaning.member getAttribute
  simp [Element.attributes, given, Meaning.type, Meaning.userDefinedType, Element.name]

theorem member_namespace {attributes : List (String × String)}
    (none : attributes.lookup "id" = none) :
    Meaning.member corpus (.mk "namespace-decl" attributes inner) scopeName = (do
      let name ← ofExcept (getAttributeOrDie (.mk "namespace-decl" attributes []) "name")
      Meaning.scope corpus inner (scopeName ++ name ++ "::")) := by
  unfold Meaning.member getAttribute
  simp [Element.attributes, none, Meaning.nonType, Element.name, getAttributeOrDie, getAttribute]

/-- A namespace means the same when its elements do. -/
theorem member_namespace_perm {attributes : List (String × String)}
    (inside : attributes.lookup "id" = none → ∀ scopeName more,
      Meaning.scope corpus inner scopeName said = .ok ((), more) →
        ∃ more', Meaning.scope corpus inner' scopeName said = .ok ((), more') ∧ more.Perm more')
    (means : Meaning.member corpus (.mk "namespace-decl" attributes inner) scopeName said =
      .ok ((), more)) :
    ∃ more', Meaning.member corpus (.mk "namespace-decl" attributes inner') scopeName said =
      .ok ((), more') ∧ more.Perm more' := by
  cases given : attributes.lookup "id" with
  | some typeId =>
    rw [member_namespace_id given] at means
    exact ⟨more, means, .refl more⟩
  | none =>
    rw [member_namespace given] at means ⊢
    cases named : getAttributeOrDie (.mk "namespace-decl" attributes []) "name" with
    | error reason =>
      rw [named] at means
      cases means
    | ok name =>
      rw [named, ofExcept_ok, pure_bind] at means
      rw [ofExcept_ok, pure_bind]
      exact inside given _ more means

theorem member_within (means : Meaning.member corpus element scopeName said = .ok ((), more)) :
    Within (Footprint corpus (elementTypes element) (elementSymbols element)) more :=
  (member_local corpus element scopeName).within said () more means

/-- The order of the elements of a scope does not matter when each type is defined once
and each symbol declared once. -/
theorem scope_perm (reordered : ScopeReordered elements elements')
    (types : (scopeTypes elements).Nodup) (symbols : (scopeSymbols elements).Nodup)
    (means : Meaning.scope corpus elements scopeName said = .ok ((), more)) :
    ∃ more', Meaning.scope corpus elements' scopeName said = .ok ((), more') ∧
      more.Perm more' := by
  induction reordered generalizing scopeName said more with
  | nil => exact ⟨more, means, .refl more⟩
  | cons element later ih =>
    obtain ⟨one, two, meansOne, meansTwo, rfl⟩ := scope_cons_iff.mp means
    have types' := (List.nodup_append'.mp types).2.1
    have symbols' := (List.nodup_append'.mp symbols).2.1
    obtain ⟨two', meansTwo', perm⟩ := ih types' symbols' meansTwo
    exact ⟨one ++ two', scope_cons_iff.mpr ⟨one, two', meansOne, meansTwo', rfl⟩,
      (Contents.Perm.refl one).append perm⟩
  | @inner inner inner' rest rest' attributes inside later insideIh laterIh =>
    obtain ⟨one, two, meansOne, meansTwo, rfl⟩ := scope_cons_iff.mp means
    obtain ⟨innerTypes, restTypes, apartTypes⟩ := List.nodup_append'.mp types
    obtain ⟨innerSymbols, restSymbols, apartSymbols⟩ := List.nodup_append'.mp symbols
    obtain ⟨one', meansOne', permOne⟩ : ∃ one', Meaning.member corpus
        (.mk "namespace-decl" attributes inner') scopeName said = .ok ((), one') ∧
          one.Perm one' := by
      apply member_namespace_perm _ meansOne
      intro none scopeName' more' means'
      rw [elementTypes_namespace, none] at innerTypes
      rw [elementSymbols_namespace, none] at innerSymbols
      exact insideIh innerTypes innerSymbols means'
    have apartTypes' := (elementTypes_perm attributes inside.types).disjoint_left.mp apartTypes
    have apartSymbols' :=
      (elementSymbols_perm attributes inside.symbols).disjoint_left.mp apartSymbols
    have near := scope_local corpus rest scopeName
    rw [near.skip (member_within meansOne) (Footprint.disjoint corpus apartTypes apartSymbols),
      ← near.skip (member_within meansOne') (Footprint.disjoint corpus apartTypes' apartSymbols')]
        at meansTwo
    obtain ⟨two', meansTwo', permTwo⟩ := laterIh restTypes restSymbols meansTwo
    exact ⟨one' ++ two', scope_cons_iff.mpr ⟨one', two', meansOne', meansTwo', rfl⟩,
      permOne.append permTwo⟩
  | swap first second rest =>
    obtain ⟨one, more', meansOne, means', rfl⟩ := scope_cons_iff.mp means
    obtain ⟨two, three, meansTwo, meansThree, rfl⟩ := scope_cons_iff.mp means'
    obtain ⟨betweenTypes, firstTypes, secondTypes⟩ := disjoint_three types
    obtain ⟨betweenSymbols, firstSymbols, secondSymbols⟩ := disjoint_three symbols
    have apart := Footprint.disjoint corpus betweenTypes betweenSymbols
    have apart' := Footprint.disjoint corpus betweenTypes.symm betweenSymbols.symm
    have free := Footprint.disjoint corpus firstTypes firstSymbols
    have free' := Footprint.disjoint corpus secondTypes secondSymbols
    obtain ⟨meansTwo', meansOne', same⟩ :=
      (member_local corpus first scopeName).commute_before (member_local corpus second scopeName)
        (scope_local corpus rest scopeName) apart apart' free free' meansOne meansTwo
    rw [← same] at meansThree
    have later := scope_cons_iff.mpr ⟨one, three, meansOne', meansThree, rfl⟩
    exact ⟨two ++ (one ++ three), scope_cons_iff.mpr ⟨two, _, meansTwo', later, rfl⟩,
      Contents.perm_swap one two three⟩
  | trans once again onceIh againIh =>
    obtain ⟨more', means', perm⟩ := onceIh types symbols means
    have types' := once.types.nodup_iff.mp types
    have symbols' := once.symbols.nodup_iff.mp symbols
    obtain ⟨more'', means'', perm'⟩ := againIh types' symbols' means'
    exact ⟨more'', means'', perm.trans perm'⟩

/- The tables of symbols. -/

namespace Tables

structure Perm (tables tables' : Tables) : Prop where
  infos : tables.infos.Perm tables'.infos
  aliases : tables.aliases.Perm tables'.aliases

variable {tables tables' tables'' first first' later later' : Tables}

theorem Perm.refl (tables : Tables) : tables.Perm tables := ⟨.refl _, .refl _⟩

theorem Perm.trans (once : tables.Perm tables') (again : tables'.Perm tables'') :
    tables.Perm tables'' :=
  ⟨once.infos.trans again.infos, once.aliases.trans again.aliases⟩

theorem Perm.append (one : first.Perm first') (two : later.Perm later') :
    (first ++ later).Perm (first' ++ later') :=
  ⟨one.infos.append two.infos, one.aliases.append two.aliases⟩

theorem perm_swap (first later rest : Tables) :
    (first ++ (later ++ rest)).Perm (later ++ (first ++ rest)) :=
  ⟨perm_swap_parts _ _ _, perm_swap_parts _ _ _⟩

theorem Perm.distinct (perm : tables.Perm tables') (distinct : tables.Distinct) :
    tables'.Distinct :=
  ⟨(perm.infos.map _).nodup_iff.mp distinct.infos,
    (perm.aliases.map _).nodup_iff.mp distinct.aliases⟩

theorem Perm.mainsPlain (perm : tables.Perm tables') (plain : tables.MainsPlain) :
    tables'.MainsPlain := by
  intro entry among present
  exact plain entry (perm.aliases.mem_iff.mpr among) ((perm.aliases.map _).mem_iff.mpr present)

theorem Perm.lookup (perm : tables.Perm tables') (distinct : tables.Distinct) (symbolId : String) :
    tables'.infos.lookup symbolId = tables.infos.lookup symbolId :=
  Lookup.lookup_perm distinct.infos perm.infos symbolId

theorem Perm.main (perm : tables.Perm tables') (distinct : tables.Distinct) (symbolId : String) :
    tables'.main symbolId = tables.main symbolId := by
  rw [Tables.main, Tables.main, Lookup.lookup_perm distinct.aliases perm.aliases]

end Tables

theorem readTables_cons_iff {symbol : Element} {symbols : List Element} {tables : Tables} :
    readTables (symbol :: symbols) = .ok tables ↔ ∃ first later, readTable symbol = .ok first ∧
      readTables symbols = .ok later ∧ tables = first ++ later := by
  constructor
  · intro read
    obtain ⟨first, readFirst, rest⟩ := bind_eq_ok read
    obtain ⟨later, readLater, all⟩ := bind_eq_ok rest
    exact ⟨first, later, readFirst, readLater, (Except.ok.inj all).symm⟩
  · rintro ⟨first, later, readFirst, readLater, rfl⟩
    rw [readTables, readFirst, readLater]
    rfl

theorem readTables_perm {symbols symbols' : List Element} {tables : Tables}
    (perm : symbols.Perm symbols') (read : readTables symbols = .ok tables) :
    ∃ tables', readTables symbols' = .ok tables' ∧ tables.Perm tables' := by
  induction perm generalizing tables with
  | nil => exact ⟨tables, read, .refl _⟩
  | cons symbol _ ih =>
    obtain ⟨first, later, readFirst, readLater, rfl⟩ := readTables_cons_iff.mp read
    obtain ⟨later', readLater', perm⟩ := ih readLater
    exact ⟨first ++ later', readTables_cons_iff.mpr ⟨first, later', readFirst, readLater', rfl⟩,
      (Tables.Perm.refl first).append perm⟩
  | swap first second rest =>
    obtain ⟨one, more, readOne, readMore, rfl⟩ := readTables_cons_iff.mp read
    obtain ⟨two, three, readTwo, readThree, rfl⟩ := readTables_cons_iff.mp readMore
    have later := readTables_cons_iff.mpr ⟨one, three, readOne, readThree, rfl⟩
    exact ⟨two ++ (one ++ three), readTables_cons_iff.mpr ⟨two, _, readTwo, later, rfl⟩,
      Tables.perm_swap one two three⟩
  | trans _ _ once again =>
    obtain ⟨tables', read', perm⟩ := once read
    obtain ⟨tables'', read'', perm'⟩ := again read'
    exact ⟨tables'', read'', perm.trans perm'⟩

/- The children of a corpus. -/

theorem corpusChild_local (corpus : Nat) (child : Element) :
    Local (Footprint corpus (corpusChildTypes child) (corpusChildSymbols child))
      (Footprint corpus (corpusChildTypes child) (corpusChildSymbols child))
      (Meaning.corpusChild corpus child) := by
  unfold Meaning.corpusChild
  apply Local.ite
  · intro _
    exact Local.ofExcept _
  intro _
  apply Local.ite
  · intro _
    exact Local.pure _
  intro _
  apply Local.ite
  · intro named
    have types : corpusChildTypes child = scopeTypes child.children := if_pos named
    have symbols : corpusChildSymbols child = scopeSymbols child.children := if_pos named
    rw [types, symbols]
    apply Local.bind (scope_local corpus child.children "")
    intro _
    exact Local.pure _
  · intro _
    exact Local.die _

theorem corpusChildren_local (corpus : Nat) (children : List Element) :
    Local (Footprint corpus (corpusTypes children) (corpusSymbols children))
      (Footprint corpus (corpusTypes children) (corpusSymbols children))
      (Meaning.corpusChildren corpus children) := by
  induction children with
  | nil => exact Local.pure _
  | cons child rest ih =>
    have first := Footprint.mono corpus (List.subset_append_left (corpusChildTypes child)
      (corpusTypes rest)) (List.subset_append_left (corpusChildSymbols child) (corpusSymbols rest))
    have later := Footprint.mono corpus (List.subset_append_right (corpusChildTypes child)
      (corpusTypes rest)) (List.subset_append_right (corpusChildSymbols child) (corpusSymbols rest))
    unfold Meaning.corpusChildren
    apply Local.bind ((corpusChild_local corpus child).mono first first)
    intro tables
    apply Local.bind (ih.mono later later)
    intro tables'
    exact Local.pure _

theorem corpusChildren_cons_iff {child : Element} {rest : List Element} {tables : Tables} :
    Meaning.corpusChildren corpus (child :: rest) said = .ok (tables, more) ↔
      ∃ firstTables first laterTables later,
        Meaning.corpusChild corpus child said = .ok (firstTables, first) ∧
        Meaning.corpusChildren corpus rest (said ++ first) = .ok (laterTables, later) ∧
        tables = firstTables ++ laterTables ∧ more = first ++ later := by
  constructor
  · intro means
    obtain ⟨firstTables, first, _, one, rest, all⟩ := Meaning.ok_of_bind means
    obtain ⟨laterTables, later, _, two, last, all'⟩ := Meaning.ok_of_bind rest
    have same := Except.ok.inj last
    have value := congrArg Prod.fst same
    have nothing := congrArg Prod.snd same
    dsimp only at value nothing all all'
    rw [all', ← nothing, Contents.append_empty] at all
    exact ⟨firstTables, first, laterTables, later, one, two, value.symm, all⟩
  · rintro ⟨firstTables, first, laterTables, later, one, two, rfl, rfl⟩
    have last : (pure (firstTables ++ laterTables) : Meaning Tables) (said ++ first ++ later) =
        .ok (firstTables ++ laterTables, {}) := rfl
    have rest := @Meaning.bind_ok _ Tables _ (fun later => pure (firstTables ++ later))
      _ _ _ _ _ two last
    rw [Contents.append_empty] at rest
    exact Meaning.bind_ok one rest

theorem corpusChild_within {child : Element} {tables : Tables}
    (means : Meaning.corpusChild corpus child said = .ok (tables, more)) :
    Within (Footprint corpus (corpusChildTypes child) (corpusChildSymbols child)) more :=
  (corpusChild_local corpus child).within said tables more means

/-- The children say the same, in some order. -/
def SameChildren (corpus : Nat) (elements elements' : List Element) : Prop :=
  ∀ said tables more, Meaning.corpusChildren corpus elements said = .ok (tables, more) →
    ∃ tables' more', Meaning.corpusChildren corpus elements' said = .ok (tables', more') ∧
      tables.Perm tables' ∧ more.Perm more'

theorem sameChildren_cons {child child' : Element} {rest rest' : List Element}
    (first : ∀ said tables more, Meaning.corpusChild corpus child said = .ok (tables, more) →
      ∃ tables' more', Meaning.corpusChild corpus child' said = .ok (tables', more') ∧
        tables.Perm tables' ∧ more.Perm more')
    (sameTypes : (corpusChildTypes child).Perm (corpusChildTypes child'))
    (sameSymbols : (corpusChildSymbols child).Perm (corpusChildSymbols child'))
    (types : (corpusTypes (child :: rest)).Nodup)
    (symbols : (corpusSymbols (child :: rest)).Nodup) (later : SameChildren corpus rest rest') :
    SameChildren corpus (child :: rest) (child' :: rest') := by
  intro said tables more means
  obtain ⟨oneTables, one, twoTables, two, meansOne, meansTwo, rfl, rfl⟩ :=
    corpusChildren_cons_iff.mp means
  obtain ⟨oneTables', one', meansOne', permTables, perm⟩ := first said oneTables one meansOne
  have apartTypes := (List.nodup_append'.mp types).2.2
  have apartSymbols := (List.nodup_append'.mp symbols).2.2
  have near := corpusChildren_local corpus rest
  rw [near.skip (corpusChild_within meansOne) (Footprint.disjoint corpus apartTypes apartSymbols),
    ← near.skip (corpusChild_within meansOne') (Footprint.disjoint corpus
      (sameTypes.disjoint_left.mp apartTypes) (sameSymbols.disjoint_left.mp apartSymbols))]
        at meansTwo
  obtain ⟨twoTables', two', meansTwo', permTables', perm'⟩ := later _ _ _ meansTwo
  refine ⟨oneTables' ++ twoTables', one' ++ two', ?_, permTables.append permTables',
    perm.append perm'⟩
  exact corpusChildren_cons_iff.mpr ⟨_, _, _, _, meansOne', meansTwo', rfl, rfl⟩

theorem sameChildren_swap (first second : Element) (rest : List Element)
    (types : (corpusTypes (first :: second :: rest)).Nodup)
    (symbols : (corpusSymbols (first :: second :: rest)).Nodup) :
    SameChildren corpus (first :: second :: rest) (second :: first :: rest) := by
  intro said tables more means
  obtain ⟨oneTables, one, _, _, meansOne, means', rfl, rfl⟩ := corpusChildren_cons_iff.mp means
  obtain ⟨twoTables, two, threeTables, three, meansTwo, meansThree, rfl, rfl⟩ :=
    corpusChildren_cons_iff.mp means'
  obtain ⟨betweenTypes, firstTypes, secondTypes⟩ := disjoint_three types
  obtain ⟨betweenSymbols, firstSymbols, secondSymbols⟩ := disjoint_three symbols
  have apart := Footprint.disjoint corpus betweenTypes betweenSymbols
  have apart' := Footprint.disjoint corpus betweenTypes.symm betweenSymbols.symm
  have free := Footprint.disjoint corpus firstTypes firstSymbols
  have free' := Footprint.disjoint corpus secondTypes secondSymbols
  obtain ⟨meansTwo', meansOne', same⟩ :=
    (corpusChild_local corpus first).commute_before (corpusChild_local corpus second)
      (corpusChildren_local corpus rest) apart apart' free free' meansOne meansTwo
  rw [← same] at meansThree
  have later := corpusChildren_cons_iff.mpr ⟨_, _, _, _, meansOne', meansThree, rfl, rfl⟩
  refine ⟨twoTables ++ (oneTables ++ threeTables), two ++ (one ++ three), ?_,
    Tables.perm_swap _ _ _, Contents.perm_swap _ _ _⟩
  exact corpusChildren_cons_iff.mpr ⟨_, _, _, _, meansTwo', later, rfl, rfl⟩

theorem corpusChild_scope_perm {attributes : List (String × String)} {tables : Tables}
    (reordered : ScopeReordered inner inner') (types : (scopeTypes inner).Nodup)
    (symbols : (scopeSymbols inner).Nodup)
    (means : Meaning.corpusChild corpus (.mk "abi-instr" attributes inner) said =
      .ok (tables, more)) :
    ∃ tables' more', Meaning.corpusChild corpus (.mk "abi-instr" attributes inner') said =
      .ok (tables', more') ∧ tables.Perm tables' ∧ more.Perm more' := by
  have unfolded : ∀ elements, Meaning.corpusChild corpus (.mk "abi-instr" attributes elements) = (do
      Meaning.scope corpus elements ""
      return {}) := by
    intro elements
    simp [Meaning.corpusChild, Element.name, Element.children]
  rw [unfolded] at means ⊢
  obtain ⟨_, one, _, meansOne, last, all⟩ := Meaning.ok_of_bind means
  cases last
  obtain ⟨one', meansOne', perm⟩ := scope_perm reordered types symbols meansOne
  refine ⟨_, _, Meaning.bind_ok meansOne' rfl, .refl _, ?_⟩
  have same : more = one := all.trans Contents.append_empty
  rw [Contents.append_empty, same]
  exact perm

theorem corpusChild_table_perm {attributes : List (String × String)} {name : String}
    {tables : Tables} (table : name = "elf-function-symbols" ∨ name = "elf-variable-symbols")
    (perm : inner.Perm inner')
    (means : Meaning.corpusChild corpus (.mk name attributes inner) said = .ok (tables, more)) :
    ∃ tables' more', Meaning.corpusChild corpus (.mk name attributes inner') said =
      .ok (tables', more') ∧ tables.Perm tables' ∧ more.Perm more' := by
  have unfolded : ∀ elements, Meaning.corpusChild corpus (.mk name attributes elements) =
      ofExcept (readTables elements) := fun elements => if_pos table
  rw [unfolded] at means ⊢
  cases read : readTables inner with
  | error reason =>
    rw [read] at means
    cases means
  | ok given =>
    rw [read] at means
    cases means
    obtain ⟨tables', read', permTables⟩ := readTables_perm perm read
    refine ⟨tables', {}, ?_, permTables, .refl _⟩
    rw [read']
    rfl

/-- The order of the children of a corpus does not matter, nor that inside them. -/
theorem corpusChildren_perm (reordered : ChildrenReordered elements elements')
    (types : (corpusTypes elements).Nodup) (symbols : (corpusSymbols elements).Nodup) :
    SameChildren corpus elements elements' := by
  induction reordered with
  | nil => exact fun said tables more means => ⟨tables, more, means, .refl _, .refl _⟩
  | cons element _ ih =>
    have later := ih (List.nodup_append'.mp types).2.1 (List.nodup_append'.mp symbols).2.1
    exact sameChildren_cons (fun said tables more means => ⟨tables, more, means, .refl _, .refl _⟩)
      (.refl _) (.refl _) types symbols later
  | scope attributes inside _ ih =>
    have later := ih (List.nodup_append'.mp types).2.1 (List.nodup_append'.mp symbols).2.1
    have innerTypes := (List.nodup_append'.mp types).1
    have innerSymbols := (List.nodup_append'.mp symbols).1
    exact sameChildren_cons
      (fun said tables more means => corpusChild_scope_perm inside innerTypes innerSymbols means)
      inside.types inside.symbols types symbols later
  | symbols attributes table perm _ ih =>
    have later := ih (List.nodup_append'.mp types).2.1 (List.nodup_append'.mp symbols).2.1
    apply sameChildren_cons (fun said tables more means => corpusChild_table_perm table perm means)
      _ _ types symbols later
    · rw [(corpusChild_table _ _ table).1, (corpusChild_table _ _ table).1]
    · rw [(corpusChild_table _ _ table).2, (corpusChild_table _ _ table).2]
  | swap first second rest => exact sameChildren_swap first second rest types symbols
  | trans once again onceIh againIh =>
    intro said tables more means
    obtain ⟨tables', more', means', permTables, perm⟩ := onceIh types symbols said tables more means
    have types' := once.types.nodup_iff.mp types
    have symbols' := once.declarations.nodup_iff.mp symbols
    obtain ⟨tables'', more'', means'', permTables', perm'⟩ :=
      againIh types' symbols' said tables' more' means'
    exact ⟨tables'', more'', means'', permTables.trans permTables', perm.trans perm'⟩

/- The symbols of a corpus. -/

section

variable {tables tables' : Tables} {id : String} {ids ids' : List String} {info : SymbolInfo}
  {symbols result : List (String × Address)}

/-- What the symbols of some ids read: what is declared, and their own parts. -/
def SymbolReads (corpus : Nat) (ids : List String) : Resource → Prop
  | .symbol _ => True
  | .parts (.symbol number id) => number = corpus ∧ id ∈ ids
  | _ => False

def SymbolWrites (corpus : Nat) (ids : List String) : Resource → Prop
  | .parts (.symbol number id) => number = corpus ∧ id ∈ ids
  | _ => False

theorem SymbolWrites.apart {id : String} (absent : id ∉ ids) (resource : Resource)
    (among : SymbolWrites corpus [id] resource) : ¬ SymbolReads corpus ids resource := by
  cases resource with
  | type => exact among.elim
  | symbol => exact among.elim
  | parts owner =>
    cases owner with
    | symbol number other =>
      intro among'
      cases List.mem_singleton.mp among.2
      exact absent among'.2
    | _ => exact among.elim

theorem symbol_local (tables : Tables) (id : String) (info : SymbolInfo) :
    Local (SymbolReads corpus [id]) (SymbolWrites corpus [id])
      (Meaning.symbol corpus tables id info) := by
  have declared : Local (SymbolReads corpus [id]) (SymbolWrites corpus [id])
      (Meaning.declared (tables.main id)) := by
    constructor
    · intro said said' agree
      unfold Meaning.declared
      rw [agree.symbols _ trivial]
    · intro said value more means
      cases means
      exact .silent rfl rfl
    · intro said value more means once
      cases means
      exact once.silent rfl
  unfold Meaning.symbol
  apply Local.bind declared
  intro declaration
  apply Local.bind (Local.ofExcept _)
  intro node
  have own : id ∈ [id] := List.mem_singleton_self _
  exact Local.part .symbol _ ⟨rfl, own⟩ ⟨rfl, own⟩

theorem SymbolReads.mono (fewer : ids ⊆ ids') (resource : Resource)
    (among : SymbolReads corpus ids resource) : SymbolReads corpus ids' resource := by
  cases resource with
  | type => exact among.elim
  | symbol => trivial
  | parts owner =>
    cases owner with
    | symbol number other => exact ⟨among.1, fewer among.2⟩
    | _ => exact among.elim

theorem SymbolWrites.mono (fewer : ids ⊆ ids') (resource : Resource)
    (among : SymbolWrites corpus ids resource) : SymbolWrites corpus ids' resource := by
  cases resource with
  | type => exact among.elim
  | symbol => exact among.elim
  | parts owner =>
    cases owner with
    | symbol number other => exact ⟨among.1, fewer among.2⟩
    | _ => exact among.elim

theorem symbolsOf_local (tables : Tables) (ids : List String) (symbols : List (String × Address)) :
    Local (SymbolReads corpus ids) (SymbolWrites corpus ids)
      (Meaning.symbolsOf corpus tables ids symbols) := by
  induction ids generalizing symbols with
  | nil => exact Local.pure _
  | cons id ids ih =>
    have own : [id] ⊆ id :: ids := List.cons_subset.mpr ⟨List.mem_cons_self, List.nil_subset _⟩
    have later : ids ⊆ id :: ids := List.subset_cons_self id ids
    unfold Meaning.symbolsOf
    cases tables.infos.lookup id with
    | none => exact (ih symbols).mono (SymbolReads.mono later) (SymbolWrites.mono later)
    | some info =>
      apply Local.bind ((symbol_local tables id info).mono (SymbolReads.mono own)
        (SymbolWrites.mono own))
      intro address
      exact (ih _).mono (SymbolReads.mono later) (SymbolWrites.mono later)

/-- Only what can be looked up in the tables matters. -/
theorem symbolsOf_congr (infos : ∀ id, tables'.infos.lookup id = tables.infos.lookup id)
    (main : ∀ id, tables'.main id = tables.main id) (ids : List String)
    (symbols : List (String × Address)) :
    Meaning.symbolsOf corpus tables' ids symbols = Meaning.symbolsOf corpus tables ids symbols := by
  have each : ∀ id info, Meaning.symbol corpus tables' id info =
      Meaning.symbol corpus tables id info := by
    intro id info
    unfold Meaning.symbol
    rw [main]
  induction ids generalizing symbols with
  | nil => rfl
  | cons id ids ih =>
    unfold Meaning.symbolsOf
    rw [infos]
    cases tables.infos.lookup id with
    | none => exact ih symbols
    | some info =>
      dsimp only
      rw [each]
      exact congrArg _ (funext fun address => ih _)

theorem symbolsOf_cons_iff (known : tables.infos.lookup id = some info) :
    Meaning.symbolsOf corpus tables (id :: ids) symbols said = .ok (result, more) ↔
      ∃ address first later, Meaning.symbol corpus tables id info said = .ok (address, first) ∧
        Meaning.symbolsOf corpus tables ids (Ordered.insert symbols id address) (said ++ first) =
          .ok (result, later) ∧ more = first ++ later := by
  have unfolded : Meaning.symbolsOf corpus tables (id :: ids) symbols = (do
      let address ← Meaning.symbol corpus tables id info
      Meaning.symbolsOf corpus tables ids (Ordered.insert symbols id address)) := by
    rw [Meaning.symbolsOf, known]
  rw [unfolded]
  constructor
  · intro means
    obtain ⟨address, first, later, one, two, all⟩ := Meaning.ok_of_bind means
    exact ⟨address, first, later, one, two, all⟩
  · rintro ⟨address, first, later, one, two, rfl⟩
    exact Meaning.bind_ok one two

/-- The order in which the symbols are gone through does not matter. -/
theorem symbolsOf_perm (perm : ids.Perm ids') (distinct : ids.Nodup)
    (known : ∀ id ∈ ids, ∃ info, tables.infos.lookup id = some info)
    (means : Meaning.symbolsOf corpus tables ids symbols said = .ok (result, more)) :
    ∃ more', Meaning.symbolsOf corpus tables ids' symbols said = .ok (result, more') ∧
      more.Perm more' := by
  induction perm generalizing symbols said result more with
  | nil => exact ⟨more, means, .refl _⟩
  | cons id _ ih =>
    obtain ⟨info, found⟩ := known id List.mem_cons_self
    obtain ⟨address, one, two, meansOne, meansTwo, rfl⟩ := (symbolsOf_cons_iff found).mp means
    obtain ⟨two', meansTwo', perm⟩ := ih (List.nodup_cons.mp distinct).2
      (fun id among => known id (List.mem_cons_of_mem _ among)) meansTwo
    exact ⟨one ++ two', (symbolsOf_cons_iff found).mpr
      ⟨address, one, two', meansOne, meansTwo', rfl⟩,
      (Contents.Perm.refl one).append perm⟩
  | swap second first rest =>
    obtain ⟨info, found⟩ := known first List.mem_cons_self
    obtain ⟨info', found'⟩ := known second (List.mem_cons_of_mem _ List.mem_cons_self)
    obtain ⟨firstAbsent, restDistinct⟩ := List.nodup_cons.mp distinct
    have different : first ≠ second := fun same => firstAbsent (same ▸ List.mem_cons_self)
    have secondAbsent := (List.nodup_cons.mp restDistinct).1
    have firstAbsent' : first ∉ rest := fun among => firstAbsent (List.mem_cons_of_mem _ among)
    obtain ⟨address, one, _, meansOne, means', rfl⟩ := (symbolsOf_cons_iff found).mp means
    obtain ⟨address', two, three, meansTwo, meansThree, rfl⟩ :=
      (symbolsOf_cons_iff found').mp means'
    have near := @symbol_local corpus tables first info
    have near' := @symbol_local corpus tables second info'
    have apart : first ∉ [second] := fun among => different (List.mem_singleton.mp among)
    have apart' : second ∉ [first] := fun among => different (List.mem_singleton.mp among).symm
    obtain ⟨meansTwo', meansOne', same⟩ := near.commute_before near'
      (@symbolsOf_local corpus tables rest _) (SymbolWrites.apart apart) (SymbolWrites.apart apart')
      (SymbolWrites.apart firstAbsent') (SymbolWrites.apart secondAbsent) meansOne meansTwo
    rw [Ordered.insert_comm different, ← same] at meansThree
    have later := (symbolsOf_cons_iff found).mpr ⟨address, one, three, meansOne', meansThree, rfl⟩
    exact ⟨two ++ (one ++ three),
      (symbolsOf_cons_iff found').mpr ⟨address', two, _, meansTwo', later, rfl⟩,
      Contents.perm_swap one two three⟩
  | trans once _ onceIh againIh =>
    obtain ⟨more', means', perm⟩ := onceIh distinct known means
    have known' : ∀ id ∈ _, ∃ info, tables.infos.lookup id = some info :=
      fun id among => known id (once.mem_iff.mpr among)
    obtain ⟨more'', means'', perm'⟩ := againIh (once.nodup_iff.mp distinct) known' means'
    exact ⟨more'', means'', perm.trans perm'⟩

end

/- Corpora and documents. -/

section

variable {iteration : Iteration} {corpus' : Element} {said' contents : Contents}
  {result : List (String × Address)} {table table' : SymbolTable} {address : Address}

theorem corpus_perm (iteration' : Iteration) {number : Nat} {corpus : Element}
    (reordered : CorpusReordered corpus corpus') (single : Single corpus)
    (apart : said.declarations = []) (perm : said.Perm said')
    (means : Meaning.corpus number iteration corpus said = .ok (result, more)) :
    ∃ more', Meaning.corpus number iteration' corpus' said' = .ok (result, more') ∧
      more.Perm more' := by
  have apart' : said'.declarations = [] := List.perm_nil.mp (apart ▸ perm.declarations.symm)
  have once : said.DeclaresOnce := by
    unfold Contents.DeclaresOnce
    rw [apart]
    exact List.nodup_nil
  obtain ⟨tables, first, later, readChildren, distinct, plain, built, rfl⟩ :=
    (Meaning.corpus_eq_ok_iff apart).mp means
  have near := corpusChildren_local number corpus.children
  have onceFirst := near.once said tables first readChildren once
  rw [near.same said said' (perm.agree once _)] at readChildren
  obtain ⟨tables', first', readChildren', permTables, permFirst⟩ :=
    corpusChildren_perm reordered.children single.types single.symbols _ _ _ readChildren
  have ids : (iteration.visit (tables.infos.map (·.1))).Perm
      (iteration'.visit (tables'.infos.map (·.1))) :=
    (iteration.perm _).trans ((permTables.infos.map _).trans (iteration'.perm _).symm)
  have distinctIds : (iteration.visit (tables.infos.map (·.1))).Nodup :=
    (iteration.perm _).nodup_iff.mpr distinct.infos
  have known : ∀ id ∈ iteration.visit (tables.infos.map (·.1)),
      ∃ info, tables.infos.lookup id = some info := by
    intro id among
    obtain ⟨entry, listed, rfl⟩ := List.mem_map.mp ((iteration.perm _).mem_iff.mp among)
    exact ⟨entry.2, Lookup.lookup_of_mem distinct.infos listed⟩
  rw [(symbolsOf_local tables _ _).same _ _ ((perm.append permFirst).agree onceFirst _)] at built
  obtain ⟨later', built', permLater⟩ := symbolsOf_perm ids distinctIds known built
  rw [← symbolsOf_congr (permTables.lookup distinct) (permTables.main distinct)] at built'
  have all := permFirst.append permLater
  refine ⟨{ first' ++ later' with declarations := [] }, ?_, all.entries, all.mentions, all.unlinked,
    .refl _⟩
  exact (Meaning.corpus_eq_ok_iff apart').mpr ⟨tables', first', later', readChildren',
    permTables.distinct distinct, permTables.mainsPlain plain, built', rfl⟩

theorem corpora_cons_iff {number : Nat} {child : Element} {rest : List Element} :
    Meaning.corpora iteration number (child :: rest) table said = .ok (table', more) ↔
      ∃ path symbols joined first later, checkElementName "abi-corpus" child = .ok () ∧
        readAttributeOrDie parseString child "path" = .ok path ∧
        Meaning.corpus number iteration child said = .ok (symbols, first) ∧
        SymbolTable.join path symbols table = .ok joined ∧
        Meaning.corpora iteration (number + 1) rest joined (said ++ first) = .ok (table', later) ∧
        more = first ++ later := by
  have unfolded : Meaning.corpora iteration number (child :: rest) table = (do
      ofExcept (checkElementName "abi-corpus" child)
      let path ← ofExcept (readAttributeOrDie parseString child "path")
      let symbols ← Meaning.corpus number iteration child
      let table ← ofExcept (SymbolTable.join path symbols table)
      Meaning.corpora iteration (number + 1) rest table) := by
    rw [Meaning.corpora]
  rw [unfolded]
  constructor
  · intro means
    cases named : checkElementName "abi-corpus" child with
    | error reason =>
      rw [named] at means
      cases means
    | ok =>
      cases read : readAttributeOrDie parseString child "path" with
      | error reason =>
        rw [named, read] at means
        cases means
      | ok path =>
        rw [named, read, ofExcept_ok, pure_bind, ofExcept_ok, pure_bind] at means
        obtain ⟨symbols, first, later, one, last, all⟩ := Meaning.ok_of_bind means
        cases join : SymbolTable.join path symbols table with
        | error reason =>
          rw [join] at last
          cases last
        | ok joined =>
          rw [join, ofExcept_ok, pure_bind] at last
          exact ⟨path, symbols, joined, first, later, rfl, rfl, one, join, last, all⟩
  · rintro ⟨path, symbols, joined, first, later, named, read, one, join, last, rfl⟩
    rw [named, read, ofExcept_ok, pure_bind, ofExcept_ok, pure_bind]
    apply Meaning.bind_ok one
    rw [join, ofExcept_ok, pure_bind]
    exact last

theorem CorpusReordered.path {corpus : Element} (reordered : CorpusReordered corpus corpus') :
    readAttributeOrDie parseString corpus' "path" =
      readAttributeOrDie parseString corpus "path" := by
  unfold readAttributeOrDie getAttributeOrDie getAttribute getParsedValueOrDie
  rw [reordered.name, reordered.attributes]

theorem CorpusReordered.check {corpus : Element} (reordered : CorpusReordered corpus corpus') :
    checkElementName "abi-corpus" corpus' = checkElementName "abi-corpus" corpus := by
  unfold checkElementName
  rw [reordered.name]

/-- The symbols of a corpus are declared nowhere else. -/
theorem corpus_apart {number : Nat} {corpus : Element} (apart : said.declarations = [])
    (means : Meaning.corpus number iteration corpus said = .ok (result, more)) :
    more.declarations = [] := by
  obtain ⟨_, _, _, _, _, _, _, rfl⟩ := (Meaning.corpus_eq_ok_iff apart).mp means
  rfl

theorem corpora_perm (iteration' : Iteration) {number : Nat} {corpora corpora' : List Element}
    (reordered : List.Forall₂ CorpusReordered corpora corpora')
    (single : ∀ corpus ∈ corpora, Single corpus) (apart : said.declarations = [])
    (perm : said.Perm said')
    (means : Meaning.corpora iteration number corpora table said = .ok (table', more)) :
    ∃ more', Meaning.corpora iteration' number corpora' table said' = .ok (table', more') ∧
      more.Perm more' := by
  induction reordered generalizing number said said' table more with
  | nil =>
    cases means
    exact ⟨{}, rfl, .refl _⟩
  | cons first _ ih =>
    obtain ⟨path, symbols, joined, one, two, named, path', meansOne, join, meansTwo, rfl⟩ :=
      corpora_cons_iff.mp means
    obtain ⟨one', meansOne', permOne⟩ := corpus_perm iteration' first
      (single _ List.mem_cons_self) apart perm meansOne
    have apart' : (said ++ one).declarations = [] := by
      rw [Contents.declarations_append, apart, corpus_apart apart meansOne]
      rfl
    obtain ⟨two', meansTwo', permTwo⟩ := ih (fun corpus among => single corpus
      (List.mem_cons_of_mem _ among)) apart' (perm.append permOne) meansTwo
    refine ⟨one' ++ two',
      corpora_cons_iff.mpr ⟨path, symbols, joined, one', two', ?_, ?_, meansOne',
      join, meansTwo', rfl⟩, permOne.append permTwo⟩
    · rw [first.check, named]
    · rw [first.path, path']

end

/-- A document whose corpora have their elements in another order. -/
structure DocumentReordered (root root' : Element) : Prop where
  name : root'.name = root.name
  corpus : root.name = "abi-corpus" → CorpusReordered root root'
  corpora : root.name = "abi-corpus-group" → List.Forall₂ CorpusReordered root.children root'.children

/-- Each corpus of the document by itself defines and declares everything once. -/
structure DocumentSingle (root : Element) : Prop where
  corpus : root.name = "abi-corpus" → Single root
  corpora : root.name = "abi-corpus-group" → ∀ corpus ∈ root.children, Single corpus

theorem part_perm {role : Role} {owner : Owner} {content : Content} {said' : Contents}
    {address : Address} (perm : said.Perm said')
    (means : Meaning.part role owner content said = .ok (address, more)) :
    Meaning.part role owner content said' = .ok (address, more) := by
  unfold Meaning.part at means ⊢
  rwa [← Meaning.nextPart_perm owner perm.addresses]

/-- A document in another order says the same, and has the same root. -/
theorem read_perm {iteration : Iteration} (iteration' : Iteration) {root root' : Element}
    {address : Address} {contents : Contents} (reordered : DocumentReordered root root')
    (single : DocumentSingle root) (means : read iteration root = .ok (address, contents)) :
    ∃ contents', read iteration' root' = .ok (address, contents') ∧ contents.Perm contents' := by
  unfold read Meaning.document at means ⊢
  rw [reordered.name]
  have permNone := Contents.Perm.refl {}
  by_cases group : root.name = "abi-corpus-group"
  · rw [if_pos group] at means ⊢
    obtain ⟨table, first, later, meansFirst, meansLater, all⟩ := Meaning.ok_of_bind means
    obtain ⟨first', meansFirst', perm⟩ := corpora_perm iteration' (reordered.corpora group)
      (single.corpora group) rfl permNone meansFirst
    have meansLater' := part_perm (permNone.append perm) meansLater
    refine ⟨first' ++ later, Meaning.bind_ok meansFirst' meansLater', ?_⟩
    rw [show contents = first ++ later from all]
    exact perm.append (.refl later)
  rw [if_neg group] at means ⊢
  by_cases corpus : root.name = "abi-corpus"
  · rw [if_pos corpus] at means ⊢
    obtain ⟨symbols, first, later, meansFirst, rest, all⟩ := Meaning.ok_of_bind means
    cases joined : SymbolTable.join "" symbols .empty with
    | error reason =>
      rw [joined] at rest
      cases rest
    | ok table =>
      rw [joined, ofExcept_ok, pure_bind] at rest
      obtain ⟨first', meansFirst', perm⟩ := corpus_perm iteration' (reordered.corpus corpus)
        (single.corpus corpus) rfl permNone meansFirst
      have meansLater' := part_perm (permNone.append perm) rest
      refine ⟨first' ++ later, Meaning.bind_ok meansFirst' ?_, ?_⟩
      · rw [joined, ofExcept_ok, pure_bind]
        exact meansLater'
      · rw [show contents = first ++ later from all]
        exact perm.append (.refl later)
  · rw [if_neg corpus] at means
    cases means

end Stg.AbiXml
