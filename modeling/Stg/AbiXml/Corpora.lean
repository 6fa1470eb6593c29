import Stg.AbiXml.Tables
import Stg.Lib.Entries

set_option autoImplicit false

/- Corpora and the root read what they mean. -/
namespace Stg.AbiXml

variable {base : Graph} {s : Corpus} {said : Contents} {place place' : Place} {tables : Tables}

/- The child elements of a corpus. -/

/-- The call reads what is meant and the tables that go with it, unless these would not
be distinct from what there is, where it throws an `stg::Exception`. -/
def ReadsTables (call : Reading Unit) (meaning : Meaning Tables) : Prop :=
  ∀ base s said place tables, Holds base s said place → Loads s tables → tables.Distinct →
    call.Ends s
      (fun _ s' => ∃ added more after, meaning said = .ok (added, more) ∧
        (tables ++ added).Distinct ∧ Loads s' (tables ++ added) ∧ place.Extends after ∧
        Holds base s' (said ++ more) after)
      (fun raised _ => raised.IsException ∧
        ∀ added more, meaning said = .ok (added, more) → ¬ (tables ++ added).Distinct)

theorem readsTables_none {call : Reading Unit} {meaning : Meaning Unit}
    (reads : ∀ place, Reads place call meaning (fun _ _ _ => True)) :
    ReadsTables call (do meaning; return {}) := by
  intro base s said place tables holds loads distinct
  apply (reads place base s said place (.refl _) holds).imp
  · rintro _ s' ⟨_, more, after, means, grows, _, holds', same⟩
    refine ⟨{}, more, after, ?_, ?_, ?_, grows, holds'⟩
    · have last : (pure {} : Meaning Tables) (said ++ more) = .ok ({}, {}) := rfl
      have both := @Meaning.bind_ok _ Tables _ (fun _ => pure {}) _ _ _ _ _ means last
      rwa [Contents.append_empty] at both
    · rwa [Tables.append_empty]
    · rw [Tables.append_empty]
      exact loads.sameSymbols same
  · rintro _ _ ⟨thrown, reason, fails⟩
    refine ⟨thrown, fun added more means => ?_⟩
    rw [Meaning.bind_error fails] at means
    cases means

theorem processCorpusChild_reads (number : Nat) (element : Element) :
    ReadsTables (processCorpusChild element) (.corpusChild number element) := by
  unfold processCorpusChild Meaning.corpusChild
  split
  · intro base s said place tables holds loads distinct
    apply (processSymbols_loads element.children s tables loads distinct).imp
    · rintro _ s' ⟨added, read, distinct', loads', same⟩
      refine ⟨added, {}, place, ?_, distinct', loads', .refl _, ?_⟩
      · rw [read]
        rfl
      · rw [Contents.append_empty]
        exact holds.sameTypes same
    · rintro _ _ ⟨thrown, refuses⟩
      refine ⟨thrown, fun added more means => ?_⟩
      cases read : readTables element.children with
      | error reason =>
        rw [read] at means
        cases means
      | ok given =>
        rw [read] at means
        cases means
        exact refuses added read
  split
  · have reads : ∀ place, Reads place (pure ()) (pure ()) (fun _ _ _ => True) :=
      fun place => Reads.pure fun _ _ => trivial
    exact readsTables_none reads
  split
  · exact readsTables_none fun place => processScope_reads number element.children place ""
  · intro base s said place tables _ _ _
    apply EStateM.Ends.throw
    refine ⟨⟨_, rfl⟩, ?_⟩
    intro added more means
    cases means

theorem processCorpusChildren_reads (number : Nat) (elements : List Element) :
    ReadsTables (processCorpusChildren elements) (.corpusChildren number elements) := by
  induction elements with
  | nil =>
    intro base s said place tables holds loads distinct
    apply EStateM.Ends.pure
    refine ⟨{}, {}, place, rfl, ?_, ?_, .refl _, ?_⟩
    · rwa [Tables.append_empty]
    · rwa [Tables.append_empty]
    · rwa [Contents.append_empty]
  | cons element rest ih =>
    intro base s said place tables holds loads distinct
    have first := processCorpusChild_reads number element base s said place tables holds
      loads distinct
    have failing : (∀ added more, Meaning.corpusChild number element said = .ok (added, more) →
        ¬ (tables ++ added).Distinct) → ∀ added more,
        Meaning.corpusChildren number (element :: rest) said = .ok (added, more) →
          ¬ (tables ++ added).Distinct := by
      intro refuses added more means distinct'
      obtain ⟨one, firstSaid, _, readOne, afterOne, _⟩ := Meaning.ok_of_bind means
      obtain ⟨two, _, _, _, last, _⟩ := Meaning.ok_of_bind afterOne
      obtain rfl : one ++ two = added := congrArg Prod.fst (Except.ok.inj last)
      apply refuses one firstSaid readOne
      rw [← Tables.append_assoc] at distinct'
      exact distinct'.left
    apply (first.imp (fun _ _ held => held) (fun _ _ => And.imp_right failing)).bind
    rintro _ s' ⟨one, firstSaid, after, readOne, distinct', loads', grows, holds'⟩
    apply (ih base s' (said ++ firstSaid) after _ holds' loads' distinct').imp
    · rintro _ s'' ⟨two, laterSaid, after', readTwo, distinct'', loads'', grows', holds''⟩
      refine ⟨one ++ two, firstSaid ++ laterSaid, after', ?_, ?_, ?_, grows.trans grows', ?_⟩
      · have last : (pure (one ++ two) : Meaning Tables) (said ++ firstSaid ++ laterSaid) =
            .ok (one ++ two, {}) := rfl
        have later := @Meaning.bind_ok _ _ _ (fun later => pure (one ++ later))
          _ _ _ _ _ readTwo last
        rw [Contents.append_empty] at later
        exact Meaning.bind_ok readOne later
      · rwa [← Tables.append_assoc]
      · rwa [← Tables.append_assoc]
      · rwa [← Contents.append_assoc]
    · rintro _ _ ⟨thrown, refuses⟩
      refine ⟨thrown, fun added more means => ?_⟩
      obtain ⟨one', firstSaid', _, readOne', afterOne, _⟩ := Meaning.ok_of_bind means
      cases readOne.symm.trans readOne'
      obtain ⟨two, laterSaid, _, readTwo, last, _⟩ := Meaning.ok_of_bind afterOne
      obtain rfl : one ++ two = added := congrArg Prod.fst (Except.ok.inj last)
      rw [← Tables.append_assoc]
      exact refuses two laterSaid readTwo

/- The table of symbols of a corpus. -/

/-- The symbols have the ids of the addresses. -/
structure LinksSymbols (place : Place) (symbols : List (String × Id))
    (meant : List (String × Address)) : Prop where
  same : symbols = meant.map fun symbol => (symbol.1, place.at_ symbol.2)
  placed : ∀ symbol ∈ meant, place symbol.2 ≠ none ∧ symbol.2.Plays .symbol

theorem LinksSymbols.mono {symbols : List (String × Id)} {meant : List (String × Address)}
    (grows : place.Extends place') (links : LinksSymbols place symbols meant) :
    LinksSymbols place' symbols meant where
  same := by
    rw [links.same]
    apply List.map_congr_left
    intro symbol among
    rw [grows.same (links.placed symbol among).1]
  placed symbol among := ⟨grows.placed (links.placed symbol among).1, (links.placed symbol among).2⟩

theorem LinksSymbols.insert {symbols : List (String × Id)} {meant : List (String × Address)}
    {name : String} {id : Id} {address : Address} (links : LinksSymbols place symbols meant)
    (linked : LinksPart .symbol place id address) :
    LinksSymbols place (Ordered.insert symbols name id) (Ordered.insert meant name address) where
  same := by
    have found : place.at_ address = id := by
      rw [Place.at_, linked.1]
      rfl
    rw [Ordered.map_insert, ← links.same, found]
  placed := by
    intro symbol among
    by_cases present : name ∈ meant.map (·.1)
    · rw [Ordered.insert_present present] at among
      exact links.placed symbol among
    · rcases List.mem_cons.mp ((Ordered.insert_perm present).mem_iff.mp among) with rfl | before
      · rw [linked.1]
        exact ⟨Option.some_ne_none _, linked.2⟩
      · exact links.placed symbol before

/-- The attributes of a symbol do not depend on its type. -/
theorem readElfSymbol_type (info : SymbolInfo) (typeId : Option Id) (name : Option String) :
    readElfSymbol info typeId name =
      (readElfSymbol info none name).map fun node => { node with typeId } := by
  unfold readElfSymbol
  cases readAttributeOrDie parseBool info.node "is-defined" with
  | error => rfl
  | ok =>
    cases readAttribute? parseCRC info.node "crc" with
    | error => rfl
    | ok =>
      cases readAttributeOrDie parseSymbolType info.node "type" with
      | error => rfl
      | ok =>
        cases readAttributeOrDie parseBinding info.node "binding" with
        | error => rfl
        | ok => cases readAttributeOrDie parseVisibility info.node "visibility" <;> rfl

theorem buildSymbol_reads (owner : Owner) (info : SymbolInfo)
    (declaration : Option (Address × String))
    (declared : ∀ given ∈ declaration.toList, place given.1 ≠ none ∧ given.1.IsType) :
    Reads place
      (buildSymbol info (declaration.map fun given => place.at_ given.1) (declaration.map (·.2)))
      (do
        let node ← ofExcept (readElfSymbol info none (declaration.map (·.2)))
        .part .symbol owner (.elfSymbol node (declaration.map (·.1))))
      (LinksPart .symbol) := by
  unfold buildSymbol
  rw [readElfSymbol_type]
  cases made : readElfSymbol info none (declaration.map (·.2)) with
  | error reason =>
    exact Reads.throw ((readElfSymbol_checked info none _).exception reason made) reason
  | ok node =>
    rw [Except.map, ofExcept_ok, ofExcept_ok, pure_bind, pure_bind]
    apply part_reads
    · constructor
      · simp only [Content.node, Option.map_map]
        rfl
      · intro reference among
        obtain ⟨given, present, rfl⟩ := List.mem_map.mp
          (show reference ∈ declaration.toList.map (·.1) by
            cases declaration with
            | none => cases among
            | some given => exact among)
        exact (declared given present).1
    · intro index
      refine ⟨rfl, fun type among => ?_⟩
      obtain ⟨given, present, rfl⟩ := List.mem_map.mp
        (show type ∈ declaration.toList.map (·.1) by
          cases declaration with
          | none => cases among
          | some given => exact among)
      exact (declared given present).2

theorem buildSymbolsOf_reads (number : Nat) (ids : List String) {symbols : List (String × Id)}
    {meant : List (String × Address)} (holds : Holds base s said place) (loads : Loads s tables)
    (links : LinksSymbols place symbols meant) :
    (buildSymbolsOf ids symbols).Ends s
      (fun value s' => ∃ result more after,
        Meaning.symbolsOf number tables ids meant said = .ok (result, more) ∧ place.Extends after ∧
        LinksSymbols after value result ∧ Holds base s' (said ++ more) after)
      (fun raised _ => raised.IsException ∧
        ∃ reason, Meaning.symbolsOf number tables ids meant said = .error reason) := by
  induction ids generalizing s said place symbols meant with
  | nil =>
    apply EStateM.Ends.pure
    refine ⟨meant, {}, place, rfl, .refl _, links, ?_⟩
    rwa [Contents.append_empty]
  | cons id ids ih =>
    unfold buildSymbolsOf Meaning.symbolsOf
    apply EStateM.Ends.get_bind
    dsimp only
    rw [loads.infos]
    cases tables.infos.lookup id with
    | none => exact ih holds loads links
    | some info =>
      dsimp only
      have main : (s.aliasToMain.lookup id).getD id = tables.main id := by
        rw [loads.aliases]
        rfl
      rw [main, holds.declared]
      generalize known : said.declarations.lookup (tables.main id) = declaration
      have declared : ∀ given ∈ declaration.toList, place given.1 ≠ none ∧ given.1.IsType := by
        intro given among
        cases declaration with
        | none => cases among
        | some own =>
          cases List.mem_singleton.mp among
          exact holds.declaredPlaced _ _ _ known
      have reads := buildSymbol_reads (.symbol number id)
        info declaration declared base s said place
        (.refl _) holds
      have meaning : Meaning.symbol number tables id info said = (do
          let node ← ofExcept (readElfSymbol info none (declaration.map (·.2)))
          .part .symbol (.symbol number id) (.elfSymbol node (declaration.map (·.1))) :
            Meaning Address) said := by
        unfold Meaning.symbol
        have given : Meaning.declared (tables.main id) said = .ok (declaration, {}) := by
          rw [Meaning.declared, known]
        change Meaning.andThen _ _ said = _
        rw [Meaning.andThen, given]
        dsimp only
        rw [Contents.append_empty]
        split
        · rename_i held
          rw [held]
          rfl
        · rename_i held
          exact held.symm
      rw [← meaning] at reads
      have maps : ∀ (f : Address × String → Id × String),
          ((declaration.map f).map (·.1)) = declaration.map fun given => (f given).1 := by
        intro f
        rw [Option.map_map]
        rfl
      have names : ∀ (f : Address → Id),
          ((declaration.map fun given => (f given.1, given.2)).map (·.2)) =
          declaration.map (·.2) := by
        intro f
        rw [Option.map_map]
        rfl
      rw [maps, names]
      have failing : (∃ reason, Meaning.symbol number tables id info said = .error reason) →
          ∃ reason, (do
            let address ← Meaning.symbol number tables id info
            Meaning.symbolsOf number tables ids (Ordered.insert meant id address)) said =
              .error reason := by
        intro fails
        obtain ⟨reason, fails⟩ := fails
        exact ⟨reason, Meaning.bind_error fails⟩
      apply (reads.imp (fun _ _ held => held) (fun _ _ => And.imp_right failing)).bind
      rintro symbol s' ⟨address, first, after, readFirst, grows, linked, holds', same⟩
      have loads' := loads.sameSymbols same
      apply (ih holds' loads' ((links.mono grows).insert linked)).imp
      · rintro value s'' ⟨result, later, after', readLater, grows', links', holds''⟩
        refine ⟨result, first ++ later, after', Meaning.bind_ok readFirst readLater,
          grows.trans grows', links', ?_⟩
        rwa [← Contents.append_assoc]
      · rintro _ _ ⟨thrown, reason, fails⟩
        exact ⟨thrown, reason, Meaning.bind_ok_error readFirst fails⟩

theorem checkAliases_ends (aliasToMain : AList fun _ : String => String) (aliases : List String) :
    (ofExcept (checkAliases aliasToMain aliases) : Reading Unit).Ends s
      (fun _ s' => s' = s ∧
        ∀ alias_ ∈ aliases, (aliasToMain.lookup alias_).getD "" ∉ aliasToMain)
      (fun raised _ => raised.IsException ∧
        ¬ ∀ alias_ ∈ aliases, (aliasToMain.lookup alias_).getD "" ∉ aliasToMain) := by
  induction aliases with
  | nil => exact EStateM.Ends.pure ⟨rfl, List.forall_mem_nil _⟩
  | cons alias_ aliases ih =>
    unfold checkAliases
    by_cases plain : (aliasToMain.lookup alias_).getD "" ∉ aliasToMain
    · have allowed : decide ((aliasToMain.lookup alias_).getD "" ∉ aliasToMain) = true :=
        decide_eq_true plain
      dsimp only
      rw [allowed]
      apply EStateM.Ends.imp ih
      · rintro _ s' ⟨same, rest⟩
        exact ⟨same, List.forall_mem_cons.mpr ⟨plain, rest⟩⟩
      · rintro _ _ ⟨thrown, refuses⟩
        exact ⟨thrown, fun all => refuses (List.forall_mem_cons.mp all).2⟩
    · have refused : decide ((aliasToMain.lookup alias_).getD "" ∉ aliasToMain) = false :=
        decide_eq_false plain
      dsimp only
      rw [refused]
      apply EStateM.Ends.throw
      refine ⟨⟨_, rfl⟩, ?_⟩
      intro all
      exact plain (List.forall_mem_cons.mp all).1

/-- What is checked of the aliases, in any order, is that main symbols are plain. -/
theorem Loads.mainsPlain_iff (loads : Loads s tables) (distinct : tables.Distinct)
    (iteration : Iteration) :
    (∀ alias_ ∈ iteration.visit s.aliasToMain.keys.reverse,
      (s.aliasToMain.lookup alias_).getD "" ∉ s.aliasToMain) ↔ tables.MainsPlain := by
  have visited : ∀ alias_, alias_ ∈ iteration.visit s.aliasToMain.keys.reverse ↔
      alias_ ∈ tables.aliases.map (·.1) := by
    intro alias_
    rw [(iteration.perm _).mem_iff, loads.aliasKeys]
  have main : ∀ entry ∈ tables.aliases, (s.aliasToMain.lookup entry.1).getD "" = entry.2 := by
    intro entry among
    rw [loads.aliases, Lookup.lookup_of_mem distinct.aliases among]
    rfl
  constructor
  · intro checked entry among present
    apply checked entry.1 ((visited _).mpr (List.mem_map_of_mem among))
    rw [main entry among]
    exact (mem_of_keys_eq loads.aliasKeys).mpr present
  · intro plain alias_ among present
    obtain ⟨entry, among', rfl⟩ := List.mem_map.mp ((visited alias_).mp among)
    rw [main entry among'] at present
    exact plain entry among' ((mem_of_keys_eq loads.aliasKeys).mp present)

theorem buildSymbols_reads (number : Nat) (iteration : Iteration) (holds : Holds base s said place)
    (loads : Loads s tables) (distinct : tables.Distinct) :
    (buildSymbols iteration).Ends s
      (fun value s' => tables.MainsPlain ∧ ∃ result more after,
        Meaning.symbolsOf number tables (iteration.visit (tables.infos.map (·.1))) [] said =
          .ok (result, more) ∧
        place.Extends after ∧ LinksSymbols after value result ∧ Holds base s' (said ++ more) after)
      (fun raised _ => raised.IsException ∧ (tables.MainsPlain → ∃ reason,
        Meaning.symbolsOf number tables (iteration.visit (tables.infos.map (·.1))) [] said =
          .error reason)) := by
  unfold buildSymbols
  apply EStateM.Ends.get_bind
  dsimp only
  have checked := @checkAliases_ends s s.aliasToMain (iteration.visit s.aliasToMain.keys.reverse)
  rw [loads.mainsPlain_iff distinct] at checked
  apply (checked.imp (fun _ _ held => held)
    (fun _ _ => And.imp_right fun refuses plain => absurd plain refuses)).bind
  rintro _ _ ⟨rfl, plain⟩
  apply EStateM.Ends.get_bind
  rw [loads.infoKeys]
  have links : LinksSymbols place [] [] := ⟨rfl, List.forall_mem_nil _⟩
  apply (buildSymbolsOf_reads number _ holds loads links).imp
  · intro value s' built
    exact ⟨plain, built⟩
  · rintro _ _ ⟨thrown, fails⟩
    exact ⟨thrown, fun _ => fails⟩

/- Corpora. -/

/-- Without the maps of a corpus. -/
def Corpus.cleared (s : Corpus) : Corpus :=
  { s with symbolInfoMap := ∅, aliasToMain := ∅, symbolIdAndFullName := ∅ }

theorem Holds.cleared (holds : Holds base s said place) :
    Holds base s.cleared { said with declarations := [] } place where
  extends_ := holds.extends_
  type := holds.type
  variadic := holds.variadic
  injective := holds.injective
  new := holds.new
  slot := holds.slot
  closed := holds.closed
  known := holds.known
  made := holds.made
  unique := holds.unique
  variadicImplicit := holds.variadicImplicit
  mentioned := holds.mentioned
  declared _ := rfl
  declaredPlaced _ _ _ := nofun
  fits := holds.fits
  unlinkedFits := holds.unlinkedFits

theorem Holds.start (base : Graph) : Holds base { graph := base } {} fun _ => none where
  extends_ := .refl base
  type _ := rfl
  variadic := rfl
  injective _ _ _ := nofun
  new _ _ := nofun
  slot _ _ := nofun
  closed := by
    intro address content said
    unfold Contents.content? at said
    split at said
    · cases said
      exact List.forall_mem_nil _
    · cases said
  known _ := by simp [Contents.Knows, Contents.addresses]
  made id start inside := absurd inside (not_lt.mpr start)
  unique := List.nodup_nil
  variadicImplicit := List.not_mem_nil
  mentioned := List.forall_mem_nil _
  declared _ := rfl
  declaredPlaced _ _ _ := nofun
  fits := List.forall_mem_nil _
  unlinkedFits := List.forall_mem_nil _

theorem Loads.start (s : Corpus) : Loads s.cleared {} := ⟨fun _ => rfl, rfl, fun _ => rfl, rfl⟩

theorem Tables.distinct_empty : ({} : Tables).Distinct := ⟨List.nodup_nil, List.nodup_nil⟩

section

variable {number : Nat} {iteration : Iteration} {element : Element}
  {result : List (String × Address)}
  {more : Contents}

/-- What it takes to read a corpus after corpora whose declarations are left out. -/
theorem Meaning.corpus_eq_ok_iff (apart : said.declarations = []) :
    Meaning.corpus number iteration element said = .ok (result, more) ↔
      ∃ tables first later, corpusChildren number element.children said = .ok (tables, first) ∧
        tables.Distinct ∧ tables.MainsPlain ∧
        symbolsOf number tables (iteration.visit (tables.infos.map (·.1))) [] (said ++ first) =
          .ok (result, later) ∧ more = { first ++ later with declarations := [] } := by
  have same : { said with declarations := [] } = said := by
    rw [← apart]
  unfold Meaning.corpus Meaning.apart
  rw [same]
  constructor
  · intro means
    split at means
    · rename_i read
      cases means
      obtain ⟨tables, first, _, readChildren, rest, all⟩ := ok_of_bind read
      obtain ⟨_, _, _, distinct, rest, all'⟩ := ok_of_bind rest
      obtain ⟨_, _, later, plain, built, all''⟩ := ok_of_bind rest
      by_cases isDistinct : tables.Distinct
      · rw [decide_eq_true isDistinct] at distinct
        cases distinct
        by_cases arePlain : tables.MainsPlain
        · rw [decide_eq_true arePlain] at plain
          cases plain
          rw [Contents.append_empty, Contents.append_empty] at built
          dsimp only at all all' all''
          rw [Contents.empty_append] at all' all''
          refine ⟨tables, first, later, readChildren, isDistinct, arePlain, built, ?_⟩
          rw [all, all', all'']
        · rw [decide_eq_false arePlain] at plain
          cases plain
      · rw [decide_eq_false isDistinct] at distinct
        cases distinct
    · cases means
  · rintro ⟨tables, first, later, readChildren, distinct, plain, built, rfl⟩
    have checks : (check (decide tables.Distinct) "multiple symbols or aliases" : Meaning Unit)
        (said ++ first) = .ok ((), {}) := by
      rw [decide_eq_true distinct]
      rfl
    have checks' : (check (decide tables.MainsPlain) "found main symbol and alias" : Meaning Unit)
        (said ++ first) = .ok ((), {}) := by
      rw [decide_eq_true plain]
      rfl
    have silent : said ++ first ++ ({} : Contents) = said ++ first := Contents.append_empty
    rw [← silent] at built
    have checked := @bind_ok _ _ _ (fun _ => symbolsOf number tables _ []) _ _ _ _ _ checks' built
    rw [← silent] at checked
    have checked' := @bind_ok _ _ _ (fun _ => check _ _ >>= fun _ => symbolsOf number tables _ [])
      _ _ _ _ _ checks checked
    have whole := @bind_ok _ _ _ (fun tables => check (decide tables.Distinct) _ >>= fun _ =>
      check (decide tables.MainsPlain) _ >>= fun _ =>
        symbolsOf number tables (iteration.visit (tables.infos.map (·.1))) [])
      _ _ _ _ _ readChildren checked'
    rw [whole]
    rfl

end

theorem Meaning.error_of_not_ok {β : Type} {meaning : Meaning β}
    (refuses : ∀ meant more, meaning said ≠ .ok (meant, more)) :
    ∃ reason, meaning said = .error reason := by
  cases read : meaning said with
  | error reason => exact ⟨reason, rfl⟩
  | ok result => exact absurd read (refuses result.1 result.2)

theorem processCorpus_reads (number : Nat) (iteration : Iteration) (corpus : Element)
    (holds : Holds base s.cleared said place) (apart : said.declarations = []) :
    (processCorpus iteration corpus).Ends s
      (fun value s' => ∃ result more after,
        Meaning.corpus number iteration corpus said = .ok (result, more) ∧ place.Extends after ∧
        LinksSymbols after value result ∧ Holds base s'.cleared (said ++ more) after ∧
        more.declarations = [])
      (fun raised _ => raised.IsException ∧
        ∃ reason, Meaning.corpus number iteration corpus said = .error reason) := by
  unfold processCorpus
  apply EStateM.Ends.modify_bind
  have children := processCorpusChildren_reads number corpus.children base s.cleared said place {}
    holds (Loads.start s) Tables.distinct_empty
  apply (children.imp (fun _ _ held => held) _).bind
  · rintro _ s' ⟨tables, first, after, readFirst, distinct, loads, grows, holds'⟩
    change tables.Distinct at distinct
    change Loads s' tables at loads
    apply (buildSymbols_reads number iteration holds' loads distinct).imp
    · rintro value s'' ⟨plain, result, later, after', readLater, grows', links, holds''⟩
      have means := (Meaning.corpus_eq_ok_iff apart).mpr
        ⟨tables, first, later, readFirst, distinct, plain, readLater, rfl⟩
      refine ⟨result, _, after', means, grows.trans grows', links, ?_, rfl⟩
      have held := holds''.cleared
      rw [Contents.append_assoc] at held
      have same : { said ++ (first ++ later) with declarations := [] } =
          said ++ { first ++ later with declarations := [] } := by
        change Contents.mk _ _ _ _ = Contents.mk _ _ _ _
        simp [apart]
      rwa [same] at held
    · rintro _ _ ⟨thrown, fails⟩
      refine ⟨thrown, ?_⟩
      apply Meaning.error_of_not_ok
      intro result more means
      obtain ⟨tables', first', later, readFirst', _, plain, readLater, _⟩ :=
        (Meaning.corpus_eq_ok_iff apart).mp means
      cases readFirst.symm.trans readFirst'
      obtain ⟨reason, failed⟩ := fails plain
      cases readLater.symm.trans failed
  · rintro _ _ ⟨thrown, refuses⟩
    refine ⟨thrown, ?_⟩
    apply Meaning.error_of_not_ok
    intro result more means
    obtain ⟨tables, first, _, readFirst, distinct, _⟩ := (Meaning.corpus_eq_ok_iff apart).mp means
    exact refuses tables first readFirst distinct

/-- The symbols of a graph are those of a table. -/
structure LinksTable (place : Place) (symbols : Symbols) (table : SymbolTable) : Prop where
  same : symbols = table.node place.at_
  placed : ∀ symbol ∈ table.symbols, place symbol.2 ≠ none ∧ symbol.2.Plays .symbol

theorem LinksTable.start (place : Place) : LinksTable place .empty .empty :=
  ⟨rfl, List.forall_mem_nil _⟩

theorem LinksTable.mono {symbols : Symbols} {table : SymbolTable} (grows : place.Extends place')
    (links : LinksTable place symbols table) : LinksTable place' symbols table where
  same := by
    have nodes : Content.node place'.at_ (.symbols table) = Content.node place.at_
        (.symbols table) := by
      apply grows.node_eq
      intro address among
      obtain ⟨symbol, among', rfl⟩ := List.mem_map.mp among
      exact (links.placed symbol among').1
    rw [links.same]
    exact (Node.symbols.inj nodes).symm
  placed symbol among := ⟨grows.placed (links.placed symbol among).1, (links.placed symbol among).2⟩

theorem LinksTable.keys {symbols : Symbols} {table : SymbolTable}
    (links : LinksTable place symbols table) : symbols.keys = table.keys := by
  rw [links.same, Symbols.keys, SymbolTable.node, List.map_map]
  rfl

theorem LinksTable.insert {symbols : Symbols} {table : SymbolTable} {key : SymbolKey} {id : Id}
    {address : Address} (links : LinksTable place symbols table) (found : place.at_ address = id)
    (placed : place address ≠ none) (plays : address.Plays .symbol) :
    LinksTable place (symbols.insert key id) (table.insert key address) where
  same := by
    rw [links.same, ← found]
    simp only [Symbols.insert, SymbolTable.node, SymbolTable.insert, Symbols.mk.injEq]
    exact (Ordered.map_insert place.at_).symm
  placed := by
    intro symbol among
    by_cases present : key ∈ table.keys
    · have same : (table.insert key address).symbols = table.symbols :=
        Ordered.insert_present present
      exact links.placed symbol (same ▸ among)
    · rcases List.mem_cons.mp ((Ordered.insert_perm present).mem_iff.mp among) with rfl | before
      · exact ⟨placed, plays⟩
      · exact links.placed symbol before

theorem merge_links (fuel : Nat) (path : String) {symbols : List (String × Id)}
    {meant : List (String × Address)} {table : Symbols} {meantTable : SymbolTable}
    (links : LinksSymbols place symbols meant) (linksTable : LinksTable place table meantTable) :
    (∃ merged joined, merge fuel path symbols table = .ok merged ∧
        SymbolTable.join path meant meantTable = .ok joined ∧ LinksTable place merged joined) ∨
      (∃ reason, merge fuel path symbols table = .error reason) ∧
        ∃ reason, SymbolTable.join path meant meantTable = .error reason := by
  induction meant generalizing symbols table meantTable with
  | nil =>
    rw [links.same]
    exact .inl ⟨table, meantTable, rfl, rfl, linksTable⟩
  | cons symbol meant ih =>
    obtain ⟨name, address⟩ := symbol
    have first := links.placed _ List.mem_cons_self
    rw [links.same, List.map_cons]
    unfold merge SymbolTable.join
    dsimp only
    rw [linksTable.keys]
    by_cases present : (⟨path, name⟩ : SymbolKey) ∈ meantTable.keys
    · rw [if_pos present, if_pos present]
      right
      constructor
      · cases SymbolKey.stream fuel ⟨path, name⟩ with
        | error reason => exact ⟨reason, rfl⟩
        | ok text => exact ⟨_, rfl⟩
      · exact ⟨_, rfl⟩
    · rw [if_neg present, if_neg present]
      have rest : LinksSymbols place (meant.map fun symbol =>
        (symbol.1, place.at_ symbol.2)) meant :=
        ⟨rfl, fun symbol among => links.placed symbol (List.mem_cons_of_mem _ among)⟩
      exact ih rest (linksTable.insert rfl first.1 first.2)

theorem processCorpora_reads (iteration : Iteration) (fuel number : Nat) (corpora : List Element)
    {symbols : Symbols} {table : SymbolTable} (links : LinksTable place symbols table)
    (holds : Holds base s.cleared said place) (apart : said.declarations = []) :
    (processCorpora iteration fuel corpora symbols).Ends s
      (fun value s' => ∃ result more after,
        Meaning.corpora iteration number corpora table said = .ok (result, more) ∧
        place.Extends after ∧ LinksTable after value result ∧
        Holds base s'.cleared (said ++ more) after ∧ more.declarations = [])
      (fun _ _ => ∃ reason,
        Meaning.corpora iteration number corpora table said = .error reason) := by
  induction corpora generalizing number s said place symbols table with
  | nil =>
    apply EStateM.Ends.pure
    refine ⟨table, {}, place, rfl, .refl _, links, ?_, rfl⟩
    rwa [Contents.append_empty]
  | cons child rest ih =>
    unfold processCorpora Meaning.corpora
    cases checkElementName "abi-corpus" child with
    | error reason => exact EStateM.Ends.throw ⟨reason, rfl⟩
    | ok =>
      cases readAttributeOrDie parseString child "path" with
      | error reason => exact EStateM.Ends.throw ⟨reason, rfl⟩
      | ok path =>
        simp only [ofExcept_ok, pure_bind]
        have own := processCorpus_reads number iteration child holds apart
        apply (own.imp (fun _ _ held => held) _).bind
        · rintro value s' ⟨result, first, after, readFirst, grows, linked, holds', apart'⟩
          have merged := @merge_links _ fuel path _ _ _ _ linked (links.mono grows)
          rcases merged with ⟨merged, joined, mergedOk, joinedOk, links'⟩ |
            ⟨⟨reason, failed⟩, ⟨reason', failed'⟩⟩
          · rw [mergedOk, ofExcept_ok, pure_bind]
            have apart₂ : (said ++ first).declarations = [] := by
              rw [Contents.declarations_append, apart, apart']
              rfl
            apply (ih (number + 1) links' holds' apart₂).imp
            · rintro value' s'' ⟨result', later, after', readLater, grows', links'',
                holds'', apart₃⟩
              refine ⟨result', first ++ later, after', ?_, grows.trans grows', links'', ?_, ?_⟩
              · apply Meaning.bind_ok readFirst
                rw [joinedOk, ofExcept_ok, pure_bind]
                exact readLater
              · rwa [← Contents.append_assoc]
              · rw [Contents.declarations_append, apart', apart₃]
                rfl
            · rintro _ _ ⟨reason, fails⟩
              refine ⟨reason, Meaning.bind_ok_error readFirst ?_⟩
              rw [joinedOk, ofExcept_ok, pure_bind]
              exact fails
          · rw [failed]
            apply EStateM.Ends.throw
            refine ⟨reason', Meaning.bind_ok_error readFirst ?_⟩
            rw [failed']
            rfl
        · rintro _ _ ⟨_, reason, fails⟩
          exact ⟨reason, Meaning.bind_error fails⟩

/- The root. -/

/-- The node of the symbols is added whatever the maps of the last corpus are. -/
theorem addRoot_reads {symbols : Symbols} {table : SymbolTable}
    (links : LinksTable place symbols table)
    (holds : Holds base s.cleared said place) :
    (add (.symbols symbols)).Ends s
      (fun id s' => ∃ address more after,
        Meaning.part .root .document (.symbols table) said = .ok (address, more) ∧
        after address = some id ∧ address.Plays .root ∧ Holds base s'.cleared (said ++ more) after)
      (fun _ _ => False) := by
  have makes : place.Makes (.symbols table) (.symbols symbols) := by
    constructor
    · rw [links.same]
      rfl
    · intro address among
      obtain ⟨symbol, among', rfl⟩ := List.mem_map.mp among
      exact (links.placed symbol among').1
  have fits : ∀ index, (Content.symbols table).Fits (.part .root .document index) :=
    fun index => ⟨rfl, fun symbol among => (links.placed symbol among).2⟩
  have reads := part_reads makes fits base s.cleared said place (.refl _) holds
  apply add_ends
  obtain ⟨address, more, after, means, _, linked, held, _⟩ := reads.returns (add_run _ _)
  exact ⟨address, more, after, means, linked.1, linked.2, held⟩

/-- The reader returns a root if and only if the document has a meaning, and then has
what it says. -/
theorem processRoot_reads (base : Graph) (iteration : Iteration) (fuel : Nat) (root : Element) :
    (processRoot iteration fuel root).Ends { graph := base }
      (fun id s => ∃ address contents place, read iteration root = .ok (address, contents) ∧
        place address = some id ∧ address.Plays .root ∧ Holds base s.cleared contents place)
      (fun _ _ => ∃ reason, read iteration root = .error reason) := by
  have start : Holds base ({ graph := base } : Corpus).cleared {} fun _ => none := Holds.start base
  unfold processRoot read Meaning.document
  split
  · have corpora := processCorpora_reads iteration fuel 0 root.children
      (LinksTable.start _) start rfl
    apply (corpora.imp (fun _ _ held => held) _).bind
    · rintro symbols s ⟨table, more, place, means, _, links, holds, _⟩
      apply (addRoot_reads links holds).imp
      · rintro id s' ⟨address, more', after, means', placed, plays, holds'⟩
        refine ⟨address, more ++ more', after, Meaning.bind_ok means means', placed, plays, ?_⟩
        rwa [Contents.empty_append] at holds'
      · exact fun _ _ => False.elim
    · rintro _ _ ⟨reason, fails⟩
      exact ⟨reason, Meaning.bind_error fails⟩
  split
  · have corpus := processCorpus_reads 0 iteration root start rfl
    apply (corpus.imp (fun _ _ held => held) _).bind
    · rintro symbols s ⟨meant, more, place, means, _, linked, holds, _⟩
      have merged := merge_links fuel "" linked (LinksTable.start place)
      rcases merged with ⟨merged, joined, mergedOk, joinedOk, links⟩ |
        ⟨⟨reason, failed⟩, ⟨reason', failed'⟩⟩
      · rw [mergedOk, ofExcept_ok, pure_bind]
        apply (addRoot_reads links holds).imp
        · rintro id s' ⟨address, more', after, means', placed, plays, holds'⟩
          refine ⟨address, more ++ more', after, ?_, placed, plays, ?_⟩
          · apply Meaning.bind_ok means
            rw [joinedOk, ofExcept_ok, pure_bind]
            exact means'
          · rwa [Contents.empty_append] at holds'
        · exact fun _ _ => False.elim
      · rw [failed]
        apply EStateM.Ends.throw
        refine ⟨reason', Meaning.bind_ok_error means ?_⟩
        rw [failed']
        rfl
    · rintro _ _ ⟨_, reason, fails⟩
      exact ⟨reason, Meaning.bind_error fails⟩
  · exact EStateM.Ends.throw ⟨_, rfl⟩

end Stg.AbiXml
