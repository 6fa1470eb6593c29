import Stg.AbiXml.Scopes

set_option autoImplicit false

/- The tables of ELF symbols of a corpus. -/
namespace Stg.AbiXml

open Emplace (emplace)

namespace Tables

variable {first second third tables : Tables}

@[simp] theorem infos_append (first second : Tables) :
    (first ++ second).infos = first.infos ++ second.infos := rfl
@[simp] theorem aliases_append (first second : Tables) :
    (first ++ second).aliases = first.aliases ++ second.aliases := rfl

@[simp] theorem append_empty (tables : Tables) : tables ++ ({} : Tables) = tables := by
  obtain ⟨infos, aliases⟩ := tables
  change Tables.mk (infos ++ []) (aliases ++ []) = _
  simp

theorem append_assoc (first second third : Tables) :
    first ++ second ++ third = first ++ (second ++ third) := by
  change Tables.mk _ _ = Tables.mk _ _
  simp

theorem Distinct.left (distinct : (first ++ second).Distinct) : first.Distinct where
  infos := by
    have both := distinct.infos
    rw [infos_append, List.map_append] at both
    exact both.sublist (List.sublist_append_left _ _)
  aliases := by
    have both := distinct.aliases
    rw [aliases_append, List.map_append] at both
    exact both.sublist (List.sublist_append_left _ _)

end Tables

/-- The maps of the corpus are the tables. -/
structure Loads (s : Corpus) (tables : Tables) : Prop where
  infos : ∀ id, s.symbolInfoMap.lookup id = tables.infos.lookup id
  infoKeys : s.symbolInfoMap.keys.reverse = tables.infos.map (·.1)
  aliases : ∀ id, s.aliasToMain.lookup id = tables.aliases.lookup id
  aliasKeys : s.aliasToMain.keys.reverse = tables.aliases.map (·.1)

/-- Nothing but the maps of the symbols is touched. -/
structure Corpus.SameTypes (s s' : Corpus) : Prop where
  graph : s'.graph = s.graph
  variadic : s'.variadic = s.variadic
  typeIds : s'.typeIds = s.typeIds
  declarations : s'.symbolIdAndFullName = s.symbolIdAndFullName

theorem Corpus.SameTypes.refl (s : Corpus) : s.SameTypes s := ⟨rfl, rfl, rfl, rfl⟩

theorem Corpus.SameTypes.trans {s s' s'' : Corpus} (first : s.SameTypes s')
    (second : s'.SameTypes s'') : s.SameTypes s'' where
  graph := second.graph.trans first.graph
  variadic := second.variadic.trans first.variadic
  typeIds := second.typeIds.trans first.typeIds
  declarations := second.declarations.trans first.declarations

theorem Holds.sameTypes {base : Graph} {s s' : Corpus} {said : Contents} {place : Place}
    (holds : Holds base s said place) (same : s.SameTypes s') : Holds base s' said place where
  extends_ := same.graph ▸ holds.extends_
  type := same.typeIds ▸ holds.type
  variadic := same.variadic.trans holds.variadic
  injective := holds.injective
  new := same.graph ▸ holds.new
  slot := same.graph ▸ holds.slot
  closed := holds.closed
  known := holds.known
  made := same.graph ▸ holds.made
  unique := holds.unique
  variadicImplicit := holds.variadicImplicit
  mentioned := holds.mentioned
  declared := same.declarations ▸ holds.declared
  declaredPlaced := holds.declaredPlaced
  fits := holds.fits
  unlinkedFits := holds.unlinkedFits

theorem Loads.sameSymbols {s s' : Corpus} {tables : Tables} (loads : Loads s tables)
    (same : s.SameSymbols s') : Loads s' tables where
  infos := same.symbolInfoMap ▸ loads.infos
  infoKeys := same.symbolInfoMap ▸ loads.infoKeys
  aliases := same.aliasToMain ▸ loads.aliases
  aliasKeys := same.aliasToMain ▸ loads.aliasKeys

section

variable {β : Type} {entries : AList fun _ : String => β} {items : List (String × β)} {key : String}

theorem mem_of_keys_eq (keys : entries.keys.reverse = items.map (·.1)) :
    key ∈ entries ↔ key ∈ items.map (·.1) := by
  rw [← keys, List.mem_reverse, AList.mem_keys]

/-- An entry that is new goes to the end. -/
theorem emplace_appends (keys : entries.keys.reverse = items.map (·.1))
    (lookups : ∀ key, entries.lookup key = items.lookup key) (value : β) (absent : key ∉ entries) :
    (emplace entries key value).keys.reverse = (items ++ [(key, value)]).map (·.1) ∧
      ∀ other, (emplace entries key value).lookup other =
        (items ++ [(key, value)]).lookup other := by
  constructor
  · rw [emplace, if_neg absent, AList.keys_insert, List.erase_of_not_mem absent,
      List.reverse_cons, keys, List.map_append]
    rfl
  · intro other
    rw [Emplace.lookup_emplace, List.lookup_append]
    by_cases same : other = key
    · subst same
      have none : items.lookup other = none := by
        rw [← lookups]
        exact AList.lookup_eq_none.mpr absent
      rw [if_pos rfl, AList.lookup_eq_none.mpr absent, none]
      simp
    · have different : (other == key) = false := beq_eq_false_iff_ne.mpr same
      rw [if_neg same, lookups]
      simp [List.lookup_cons, different]

end

/-- The call reads more of the tables and touches nothing else, unless that would not be
distinct from what there is, where it throws an `stg::Exception`. -/
def LoadsMore {α : Type} (call : Reading α) (more : Except Error Tables) : Prop :=
  ∀ s tables, Loads s tables → tables.Distinct → call.Ends s
    (fun _ s' => ∃ added, more = .ok added ∧ (tables ++ added).Distinct ∧
      Loads s' (tables ++ added) ∧ s.SameTypes s')
    (fun raised _ => raised.IsException ∧
      ∀ added, more = .ok added → ¬ (tables ++ added).Distinct)

variable {s : Corpus} {tables : Tables}

/-- One after the other. -/
theorem LoadsMore.seq {α β : Type} {call : Reading α} {rest : Reading β}
    {first later : Except Error Tables} (loadsFirst : LoadsMore call first)
    (loadsLater : LoadsMore rest later) :
    LoadsMore (call >>= fun _ => rest) (do
      let first ← first
      let later ← later
      return first ++ later) := by
  intro s tables loads distinct
  have failing : (∀ added, first = .ok added → ¬ (tables ++ added).Distinct) →
      ∀ added, (do
        let first ← first
        let later ← later
        return first ++ later) = Except.ok added → ¬ (tables ++ added).Distinct := by
    intro refuses added same distinct'
    obtain ⟨one, readOne, afterOne⟩ := bind_eq_ok same
    obtain ⟨two, _, last⟩ := bind_eq_ok afterOne
    cases last
    apply refuses one readOne
    rw [← Tables.append_assoc] at distinct'
    exact distinct'.left
  apply ((loadsFirst s tables loads distinct).imp (fun _ _ held => held)
    (fun _ _ => And.imp_right failing)).bind
  rintro _ s' ⟨one, readOne, distinct', loads', same⟩
  apply (loadsLater s' _ loads' distinct').imp
  · rintro _ s'' ⟨two, readTwo, distinct'', loads'', same'⟩
    refine ⟨one ++ two, ?_, ?_, ?_, same.trans same'⟩
    · rw [readOne, readTwo]
      rfl
    · rwa [← Tables.append_assoc]
    · rwa [← Tables.append_assoc]
  · rintro _ _ ⟨thrown, refuses⟩
    refine ⟨thrown, fun added read => ?_⟩
    obtain ⟨one', readOne', afterOne⟩ := bind_eq_ok read
    cases readOne.symm.trans readOne'
    obtain ⟨two, readTwo, last⟩ := bind_eq_ok afterOne
    cases last
    rw [← Tables.append_assoc]
    exact refuses two readTwo

theorem processAliases_loads (elfSymbolId : String) (items : List String) :
    LoadsMore (processAliases elfSymbolId items)
      (.ok ⟨[], items.map fun item => (item, elfSymbolId)⟩) := by
  induction items with
  | nil =>
    intro s tables loads distinct
    apply EStateM.Ends.pure
    refine ⟨{}, rfl, ?_, ?_, .refl _⟩
    · rwa [Tables.append_empty]
    · rwa [Tables.append_empty]
  | cons item items ih =>
    intro s tables loads distinct
    unfold processAliases
    apply EStateM.Ends.get_bind
    dsimp only
    have member := @mem_of_keys_eq _ _ _ item loads.aliasKeys
    have split : tables ++ (⟨[], (item :: items).map fun item => (item, elfSymbolId)⟩ : Tables) =
        tables ++ ⟨[], [(item, elfSymbolId)]⟩ ++
          ⟨[], items.map fun item => (item, elfSymbolId)⟩ := by
      rw [Tables.append_assoc]
      rfl
    by_cases present : item ∈ s.aliasToMain
    · have refused : decide (item ∉ s.aliasToMain) = false := by simpa using present
      rw [refused]
      apply EStateM.Ends.throw
      refine ⟨⟨_, rfl⟩, ?_⟩
      rintro added same distinct'
      cases same
      have aliases := distinct'.aliases
      rw [Tables.aliases_append, List.map_append, List.map_cons, List.map_cons] at aliases
      exact (List.nodup_append.mp aliases).2.2 item (member.mp present) item List.mem_cons_self rfl
    · have allowed : decide (item ∉ s.aliasToMain) = true := by simpa using present
      rw [allowed]
      obtain ⟨keys, lookups⟩ := emplace_appends loads.aliasKeys loads.aliases elfSymbolId present
      have distinct' : (tables ++ (⟨[], [(item, elfSymbolId)]⟩ : Tables)).Distinct := by
        constructor
        · simpa using distinct.infos
        · rw [Tables.aliases_append, List.map_append]
          exact List.nodup_append'.mpr ⟨distinct.aliases, List.nodup_singleton _,
            List.disjoint_singleton.mpr fun among => present (member.mpr among)⟩
      have loads' : Loads { s with aliasToMain := emplace s.aliasToMain item elfSymbolId }
          (tables ++ ⟨[], [(item, elfSymbolId)]⟩) := by
        constructor
        · simpa using loads.infos
        · simpa using loads.infoKeys
        · exact lookups
        · exact keys
      apply (ih _ _ loads' distinct').imp
      · rintro _ s' ⟨_, same, distinct'', loads'', rest⟩
        cases same
        refine ⟨_, rfl, ?_, ?_, ⟨rest.graph, rest.variadic, rest.typeIds, rest.declarations⟩⟩
        · rwa [split]
        · rwa [split]
      · rintro _ _ ⟨thrown, refuses⟩
        refine ⟨thrown, ?_⟩
        rintro _ same
        cases same
        rw [split]
        exact refuses _ rfl

theorem processSymbol_loads (symbol : Element)
    (named : checkElementName "elf-symbol" symbol = .ok ()) :
    LoadsMore (processSymbol symbol) (readTable symbol) := by
  intro s tables loads distinct
  unfold processSymbol readTable
  rw [named]
  cases read : readSymbol symbol with
  | error reason =>
    apply EStateM.Ends.throw
    refine ⟨(readSymbol_checked symbol).exception reason read, ?_⟩
    intro added same
    cases same
  | ok result =>
    obtain ⟨elfSymbolId, info, aliases⟩ := result
    rw [ofExcept_ok, pure_bind]
    apply EStateM.Ends.get_bind
    dsimp only
    have member := @mem_of_keys_eq _ _ _ elfSymbolId loads.infoKeys
    by_cases present : elfSymbolId ∈ s.symbolInfoMap
    · have refused : decide (elfSymbolId ∉ s.symbolInfoMap) = false := by simpa using present
      rw [refused]
      apply EStateM.Ends.throw
      refine ⟨⟨_, rfl⟩, ?_⟩
      rintro added same distinct'
      cases same
      have infos := distinct'.infos
      rw [Tables.infos_append, List.map_append] at infos
      exact (List.nodup_append.mp infos).2.2 elfSymbolId (member.mp present) elfSymbolId
        (List.mem_singleton_self _) rfl
    · have allowed : decide (elfSymbolId ∉ s.symbolInfoMap) = true := by simpa using present
      rw [allowed]
      obtain ⟨keys, lookups⟩ := emplace_appends loads.infoKeys loads.infos info present
      have distinct' : (tables ++ (⟨[(elfSymbolId, info)], []⟩ : Tables)).Distinct := by
        constructor
        · rw [Tables.infos_append, List.map_append]
          exact List.nodup_append'.mpr ⟨distinct.infos, List.nodup_singleton _,
            List.disjoint_singleton.mpr fun among => present (member.mpr among)⟩
        · simpa using distinct.aliases
      have loads' : Loads { s with symbolInfoMap := emplace s.symbolInfoMap elfSymbolId info }
          (tables ++ ⟨[(elfSymbolId, info)], []⟩) := by
        constructor
        · exact lookups
        · exact keys
        · simpa using loads.aliases
        · simpa using loads.aliasKeys
      have split : tables ++ (⟨[(elfSymbolId, info)],
          aliases.map fun item => (item, elfSymbolId)⟩ : Tables) =
            tables ++ ⟨[(elfSymbolId, info)], []⟩ ++
              ⟨[], aliases.map fun item => (item, elfSymbolId)⟩ := by
        rw [Tables.append_assoc]
        rfl
      apply (processAliases_loads elfSymbolId aliases _ _ loads' distinct').imp
      · rintro _ s' ⟨_, same, distinct'', loads'', rest⟩
        cases same
        refine ⟨_, rfl, ?_, ?_, ⟨rest.graph, rest.variadic, rest.typeIds, rest.declarations⟩⟩
        · rwa [split]
        · rwa [split]
      · rintro _ _ ⟨thrown, refuses⟩
        refine ⟨thrown, ?_⟩
        rintro _ same
        cases same
        rw [split]
        exact refuses _ rfl

theorem processSymbols_loads (elements : List Element) :
    LoadsMore (processSymbols elements) (readTables elements) := by
  induction elements with
  | nil =>
    intro s tables loads distinct
    apply EStateM.Ends.pure
    refine ⟨{}, rfl, ?_, ?_, .refl _⟩
    · rwa [Tables.append_empty]
    · rwa [Tables.append_empty]
  | cons symbol rest ih =>
    unfold processSymbols readTables
    cases named : checkElementName "elf-symbol" symbol with
    | error reason =>
      intro s tables _ _
      apply EStateM.Ends.throw
      refine ⟨(checkElementName_checked _ symbol).exception reason named, ?_⟩
      intro added same
      unfold readTable at same
      rw [named] at same
      cases same
    | ok =>
      rw [ofExcept_ok, pure_bind]
      exact (processSymbol_loads symbol named).seq ih

end Stg.AbiXml
