import Stg.AbiXml.Accounts
import Stg.AbiXml.Closed

set_option autoImplicit false

/- How the symbols of a corpus, their aliases and the declarations are put together. -/
namespace Stg.AbiXml

/-- The reader, which started with the graph `base`, is between two corpora. -/
inductive Between (base : Graph) : List Element → Corpus → Prop where
  | start : Between base [] { graph := base }
  | next {earlier : List Element} {s s' : Corpus} {symbols : List (String × Id)}
      (iteration : Iteration) (corpus : Element) (before : Between base earlier s)
      (accepted : (processCorpus iteration corpus).run s = .ok symbols s') :
    Between base (earlier ++ [corpus]) s'

def tableSymbols (child : Element) : List Element :=
  if child.name = "elf-function-symbols" ∨ child.name = "elf-variable-symbols" then child.children
  else []

/-- The elements of the ELF symbols of a corpus. -/
def elfSymbols (corpus : Element) : List Element := corpus.children.flatMap tableSymbols

/-- What is processed of a corpus after the other corpora. -/
def processedAfter (earlier : List Element) (corpus : Element) : List Processed :=
  processedCorpus corpus (definedTypes (processedCorpora earlier []))

/-- A declaration that has this type: the id of its `type-id`, or the node of its function
type, with the ids that the types have in the end. -/
def Processed.HasType (s : Corpus) (type : Id) : Processed → Prop
  | .definition _ _ _ => False
  | .declaration isVariable _ decl =>
    if isVariable then ∃ typeId, getAttribute decl "type-id" = some typeId ∧
      s.typeIds.lookup typeId = some type
    else ∃ node s', (makeFunctionType decl).run s = .ok node s' ∧ s.graph.get type = .ok node

/-- The symbol id has this node in the map. -/
def SymbolNode (s : Corpus) (symbols : List (String × Id)) (id : String) (node : ElfSymbol) : Prop :=
  ∃ symbol, (id, symbol) ∈ symbols ∧ s.graph.get symbol = .ok (.elfSymbol node)

/-- The symbols of the elements are in the map, with the types of the declarations of
their main symbols. -/
structure Resolved (elements : List Element) (parts : List Processed) (tables : Tables)
    (symbols : List (String × Id)) (s : Corpus) : Prop where
  listed : List.Forall₂ (fun element entry =>
    ∃ aliases, readSymbol element = .ok (entry.1, entry.2, aliases)) elements tables.infos
  distinct : (tables.infos.map (·.1)).Nodup
  keys : (symbols.map (·.1)).Perm (tables.infos.map (·.1))
  ids : (symbols.map (·.2)).Nodup
  built : ∀ entry ∈ tables.infos, ∃ node, SymbolNode s symbols entry.1 node ∧
    readElfSymbol entry.2 node.typeId node.fullName = .ok node
  mains : ∀ entry ∈ tables.aliases, tables.main entry.1 = entry.2
  plain : ∀ id, tables.main id ∉ tables.aliases.map (·.1)
  settles : ∀ id n, tables.main^[n + 1] id = tables.main id
  alike : ∀ id node node', SymbolNode s symbols id node → SymbolNode s symbols (tables.main id) node' →
    node.typeId = node'.typeId ∧ node.fullName = node'.fullName
  typed : ∀ id node, SymbolNode s symbols id node →
    (node.typeId ≠ none ↔ ∃ part ∈ parts, part.symbolId? = some (tables.main id))
  declared : ∀ id node, SymbolNode s symbols id node → ∀ part ∈ parts,
    part.symbolId? = some (tables.main id) → ∃ type, node.typeId = some type ∧ part.HasType s type

/- The aliases. -/

namespace Tables

variable {tables : Tables}

theorem main_alias (distinct : tables.Distinct) {entry : String × String}
    (among : entry ∈ tables.aliases) :
    tables.main entry.1 = entry.2 := by
  rw [main, Lookup.lookup_of_mem distinct.aliases among]
  rfl

theorem main_other {id : String} (other : id ∉ tables.aliases.map (·.1)) : tables.main id = id := by
  have none : tables.aliases.lookup id = none := by
    rw [List.lookup_eq_none_iff]
    intro entry among
    rw [bne_iff_ne]
    rintro rfl
    exact other (List.mem_map_of_mem among)
  rw [main, none]
  rfl

theorem MainsPlain.main_plain (plain : tables.MainsPlain) (distinct : tables.Distinct)
    (id : String) :
    tables.main id ∉ tables.aliases.map (·.1) := by
  by_cases present : id ∈ tables.aliases.map (·.1)
  · obtain ⟨entry, among, rfl⟩ := List.mem_map.mp present
    rw [main_alias distinct among]
    exact plain entry among
  · rwa [main_other present]

/-- One lookup is as good as many. -/
theorem MainsPlain.main_iterate (plain : tables.MainsPlain) (distinct : tables.Distinct)
    (id : String)
    (n : Nat) : tables.main^[n + 1] id = tables.main id := by
  rw [Function.iterate_succ_apply]
  exact Function.iterate_fixed (main_other (plain.main_plain distinct id)) n

theorem readTable_ok {symbol : Element} (read : readTable symbol = .ok tables) :
    ∃ id info aliases, readSymbol symbol = .ok (id, info, aliases) ∧
      tables.infos = [(id, info)] := by
  unfold readTable at read
  obtain ⟨_, _, rest⟩ := bind_eq_ok read
  obtain ⟨⟨id, info, aliases⟩, given, last⟩ := bind_eq_ok rest
  cases last
  exact ⟨id, info, aliases, given, rfl⟩

theorem readTables_listed {elements : List Element} (read : readTables elements = .ok tables) :
    List.Forall₂ (fun element entry =>
      ∃ aliases, readSymbol element = .ok (entry.1, entry.2, aliases)) elements tables.infos := by
  induction elements generalizing tables with
  | nil =>
    cases read
    exact .nil
  | cons element elements ih =>
    obtain ⟨first, later, readFirst, readLater, rfl⟩ := readTables_cons_iff.mp read
    obtain ⟨id, info, aliases, given, one⟩ := readTable_ok readFirst
    rw [infos_append, one]
    exact .cons ⟨aliases, given⟩ (ih readLater)

theorem readTables_append {elements elements' : List Element} {tables' : Tables}
    (read : readTables elements = .ok tables) (read' : readTables elements' = .ok tables') :
    readTables (elements ++ elements') = .ok (tables ++ tables') := by
  induction elements generalizing tables with
  | nil =>
    cases read
    exact read'
  | cons element elements ih =>
    obtain ⟨first, later, readFirst, readLater, rfl⟩ := readTables_cons_iff.mp read
    rw [append_assoc]
    exact readTables_cons_iff.mpr ⟨first, _, readFirst, ih readLater, rfl⟩

end Tables

theorem corpusChild_tables {number : Nat} {child : Element} {said more : Contents} {tables : Tables}
    (means : Meaning.corpusChild number child said = .ok (tables, more)) :
    readTables (tableSymbols child) = .ok tables := by
  unfold Meaning.corpusChild at means
  unfold tableSymbols
  by_cases table : child.name = "elf-function-symbols" ∨ child.name = "elf-variable-symbols"
  · rw [if_pos table] at means ⊢
    cases read : readTables child.children with
    | error reason =>
      rw [read] at means
      cases means
    | ok given =>
      rw [read] at means
      cases means
      rfl
  rw [if_neg table] at means ⊢
  split at means
  · cases means
    rfl
  split at means
  · obtain ⟨_, _, _, _, last, _⟩ := Meaning.ok_of_bind means
    cases last
    rfl
  · cases means

theorem corpusChildren_tables {number : Nat} {children : List Element} {said more : Contents}
    {tables : Tables} (means : Meaning.corpusChildren number children said = .ok (tables, more)) :
    readTables (children.flatMap tableSymbols) = .ok tables := by
  induction children generalizing said more tables with
  | nil =>
    cases means
    rfl
  | cons child rest ih =>
    obtain ⟨firstTables, first, laterTables, later, one, two, rfl, _⟩ :=
      corpusChildren_cons_iff.mp means
    exact Tables.readTables_append (corpusChild_tables one) (ih two)

/- The table of symbols. -/

namespace Corpus

/-- What is declared for the main symbol of a symbol id. -/
def mainDeclaration (s : Corpus) (id : String) : Option (Id × String) :=
  s.symbolIdAndFullName.lookup ((s.aliasToMain.lookup id).getD id)

/-- The symbols of these ids have been added to the graph. -/
structure Builds (s : Corpus) (graph : Graph) (ids : List String) (symbols : List (String × Id)) :
    Prop where
  keys : (symbols.map (·.1)).Perm ids
  nodes : (symbols.map (·.2)).Nodup
  made : ∀ entry ∈ symbols, ∃ info node, s.symbolInfoMap.lookup entry.1 = some info ∧
    graph.get entry.2 = .ok (.elfSymbol node) ∧
    readElfSymbol info ((s.mainDeclaration entry.1).map (·.1)) ((s.mainDeclaration entry.1).map (·.2)) =
      .ok node

variable {s : Corpus} {graph : Graph} {ids : List String} {symbols : List (String × Id)}

theorem Builds.below (builds : s.Builds graph ids symbols) {entry : String × Id}
    (among : entry ∈ symbols) : entry.2.ix < graph.nodes.length := by
  obtain ⟨_, _, _, got, _⟩ := builds.made entry among
  exact (List.getElem?_eq_some_iff.mp (Graph.get_eq_ok.mp got)).1

theorem Builds.add {id : String} {info : SymbolInfo} {node : ElfSymbol}
    (builds : s.Builds graph ids symbols) (absent : id ∉ ids)
    (found : s.symbolInfoMap.lookup id = some info)
    (read : readElfSymbol info ((s.mainDeclaration id).map (·.1))
      ((s.mainDeclaration id).map (·.2)) =
      .ok node) :
    s.Builds ⟨graph.nodes ++ [some (.elfSymbol node)]⟩ (id :: ids)
      (Ordered.insert symbols id ⟨graph.nodes.length⟩) := by
  have apart : id ∉ symbols.map (·.1) := fun among => absent (builds.keys.mem_iff.mp among)
  have perm := @Ordered.insert_perm _ _ _ symbols id (⟨graph.nodes.length⟩ : Id) apart
  constructor
  · exact (perm.map _).trans (builds.keys.cons id)
  · rw [(perm.map _).nodup_iff]
    apply List.nodup_cons.mpr
    constructor
    · intro among
      obtain ⟨entry, present, same⟩ := List.mem_map.mp among
      have below := builds.below present
      rw [show entry.2 = ⟨graph.nodes.length⟩ from same] at below
      exact lt_irrefl _ below
    · exact builds.nodes
  · intro entry among
    rcases List.mem_cons.mp (perm.mem_iff.mp among) with rfl | before
    · refine ⟨info, node, found, Graph.get_eq_ok.mpr ?_, read⟩
      exact List.getElem?_concat_length
    · obtain ⟨info', node', found', got, read'⟩ := builds.made entry before
      exact ⟨info', node', found', (Graph.extends_append graph _).got got, read'⟩

end Corpus

/-- Nothing but the graph changes. -/
theorem buildSymbolsOf_builds {s : Corpus} {graph : Graph} {done : List String}
    (ids : List String) {symbols : List (String × Id)} (builds : s.Builds graph done symbols)
    (distinct : (ids ++ done).Nodup) (known : ∀ id ∈ ids, id ∈ s.symbolInfoMap) :
    (buildSymbolsOf ids symbols).Ends { s with graph }
      (fun result s' => ∃ graph', s' = { s with graph := graph' } ∧
        s.Builds graph' (ids ++ done) result)
      (fun _ _ => True) := by
  induction ids generalizing graph done symbols with
  | nil => exact EStateM.Ends.pure ⟨graph, rfl, builds⟩
  | cons id ids ih =>
    obtain ⟨info, found⟩ := Option.isSome_iff_exists.mp
      (AList.lookup_isSome.mpr (known id List.mem_cons_self))
    have absent := (List.nodup_cons.mp distinct).1
    have apart : id ∉ done := fun among => absent (List.mem_append_right _ among)
    unfold buildSymbolsOf
    apply EStateM.Ends.get_bind
    dsimp only
    rw [found]
    dsimp only
    unfold buildSymbol
    cases read : readElfSymbol info ((s.mainDeclaration id).map (·.1))
        ((s.mainDeclaration id).map (·.2)) with
    | error reason =>
      unfold Corpus.mainDeclaration at read
      rw [read]
      exact EStateM.Ends.throw trivial
    | ok node =>
      have added := builds.add apart found read
      unfold Corpus.mainDeclaration at read
      rw [read, ofExcept_ok, pure_bind]
      apply add_bind_ends
      have moved : (ids ++ id :: done).Perm (id :: ids ++ done) := List.perm_middle
      have later := ih added (moved.nodup_iff.mpr distinct)
        fun id among => known id (List.mem_cons_of_mem _ among)
      apply later.imp
      · rintro result s' ⟨graph', rfl, built⟩
        exact ⟨graph', rfl, built.keys.trans moved, built.nodes, built.made⟩
      · exact fun _ _ held => held

theorem buildSymbols_builds (iteration : Iteration) (s : Corpus) :
    (buildSymbols iteration).Ends s
      (fun symbols s' => ∃ graph, s' = { s with graph } ∧
        s.Builds graph s.symbolInfoMap.keys symbols)
      (fun _ _ => True) := by
  unfold buildSymbols
  apply EStateM.Ends.get_bind
  have checked := @checkAliases_ends s s.aliasToMain (iteration.visit s.aliasToMain.keys.reverse)
  apply (checked.imp (fun _ _ held => held.1) (fun _ _ _ => trivial)).bind
  intro _ s' same
  rw [same]
  apply EStateM.Ends.get_bind
  have perm := (iteration.perm s.symbolInfoMap.keys.reverse).trans (List.reverse_perm _)
  have nothing : s.Builds s.graph [] [] := ⟨.nil, List.nodup_nil, List.forall_mem_nil _⟩
  have distinct : (iteration.visit s.symbolInfoMap.keys.reverse ++ []).Nodup := by
    rw [List.append_nil, perm.nodup_iff]
    exact s.symbolInfoMap.nodupKeys
  have ends := buildSymbolsOf_builds _ nothing distinct
    fun id among => AList.mem_keys.mp (perm.mem_iff.mp among)
  rw [List.append_nil] at ends
  apply ends.imp
  · rintro symbols s' ⟨graph, same, built⟩
    exact ⟨graph, same, built.keys.trans perm, built.nodes, built.made⟩
  · exact fun _ _ held => held

/- The corpora before. -/

theorem processedCorpora_append (earlier : List Element) (corpus : Element) (seen : List String) :
    processedCorpora (earlier ++ [corpus]) seen = processedCorpora earlier seen ++
      processedCorpus corpus (seen ++ definedTypes (processedCorpora earlier seen)) := by
  induction earlier generalizing seen with
  | nil =>
    change processedCorpus corpus seen ++ [] = processedCorpus corpus (seen ++ [])
    rw [List.append_nil, List.append_nil]
  | cons first rest ih =>
    change processedCorpus first seen ++ processedCorpora (rest ++ [corpus]) _ = _ ++ _ ++ _
    rw [ih, List.append_assoc, List.append_assoc]
    congr 3
    change _ = seen ++ definedTypes (processedCorpus first seen ++ processedCorpora rest _)
    unfold definedTypes
    rw [List.filterMap_append]

variable {base : Graph} {earlier : List Element} {s s' : Corpus} {said more : Contents}
  {place after : Place} {parts : List Processed}

theorem Between.holds (between : Between base earlier s) :
    ∃ said place, Holds base s.cleared said place ∧ said.declarations = [] ∧
      said.Defined (definedTypes (processedCorpora earlier [])) := by
  induction between with
  | start =>
    have nothing : ({} : Contents).Defined [] :=
      fun typeId => iff_of_false List.not_mem_nil List.not_mem_nil
    exact ⟨{}, _, Holds.start base, rfl, nothing⟩
  | next iteration corpus _ accepted ih =>
    obtain ⟨said, place, holds, apart, defined⟩ := ih
    obtain ⟨_, more, after, means, _, _, holds', apart'⟩ :=
      (processCorpus_reads 0 iteration corpus holds apart).returns accepted
    refine ⟨said ++ more, after, holds', ?_, ?_⟩
    · rw [Contents.declarations_append, apart, apart']
      rfl
    · have later := defined.append (corpus_tallies apart defined means)
      rw [processedCorpora_append, definedTypes, List.filterMap_append]
      exact later

/-- The corpora of a group are read in this way. -/
theorem Between.corpora {iteration : Iteration} {fuel : Nat} {corpora : List Element}
    {symbols symbols' : Symbols} (between : Between base earlier s)
    (accepted : (processCorpora iteration fuel corpora symbols).run s = .ok symbols' s') :
    Between base (earlier ++ corpora) s' := by
  induction corpora generalizing earlier s symbols with
  | nil =>
    cases accepted
    rwa [List.append_nil]
  | cons corpus rest ih =>
    obtain ⟨_, _, checked, afterName⟩ := EStateM.ok_of_run_bind accepted
    obtain ⟨_, rfl⟩ := ofExcept_run checked
    obtain ⟨path, _, read, afterPath⟩ := EStateM.ok_of_run_bind afterName
    obtain ⟨_, rfl⟩ := ofExcept_run read
    obtain ⟨own, s₁, ran, afterCorpus⟩ := EStateM.ok_of_run_bind afterPath
    obtain ⟨merged, _, joined, others⟩ := EStateM.ok_of_run_bind afterCorpus
    obtain ⟨_, rfl⟩ := ofExcept_run joined
    have later := ih (.next iteration corpus between ran) others
    rwa [List.append_assoc] at later

/- The declarations. -/

/-- The type of a declaration that has been processed. -/
theorem Holds.hasType (holds : Holds base s (said ++ more) place) {part : Processed}
    {symbolId name : String} {type : Address} (declares : part.Declares more symbolId type name)
    (placed : place type ≠ none) : part.HasType s (place.at_ type) := by
  obtain ⟨id, held⟩ := Option.ne_none_iff_exists'.mp placed
  have own : place.at_ type = id := by
    rw [Place.at_, held]
    rfl
  rw [own]
  cases part with
  | definition => exact declares
  | declaration isVariable scopeName decl =>
    obtain ⟨_, _, typed⟩ := declares
    cases isVariable with
    | true =>
      obtain ⟨typeId, given, rfl⟩ := typed
      exact ⟨typeId, given, (holds.type typeId).trans held⟩
    | false =>
      obtain ⟨content, mentions, read, among⟩ := typed
      have known := holds.content_of_mem (List.mem_append_right _ among)
      have got := holds.get held known
      have mentioned : Meaning.mentioning (Mentions.functionType decl) (said ++ more) =
          .ok (content, { mentions }) := by
        unfold Meaning.mentioning
        rw [read]
      have notes := makeFunctionType_notes decl base s _ place (.refl _) holds
      cases ran : (makeFunctionType decl).run s with
      | error reason s' =>
        obtain ⟨_, _, fails⟩ := notes.raises ran
        cases mentioned.symm.trans fails
      | ok node s' =>
        obtain ⟨_, _, after, means, grows, made, _⟩ := notes.returns ran
        cases mentioned.symm.trans means
        refine ⟨node, s', ran, ?_⟩
        rw [got, made.1.1.node, grows.node_eq (holds.closed type content known)]

/-- What is in the map for a symbol id comes from its declarations. -/
theorem Holds.declaration_iff (holds : Holds base s (said ++ more) place)
    (apart : said.declarations = []) (accounts : Accounts said parts more) (symbolId : String) :
    (s.symbolIdAndFullName.lookup symbolId ≠ none ↔
      ∃ part ∈ parts, part.symbolId? = some symbolId) ∧
      ∀ part ∈ parts, part.symbolId? = some symbolId →
        ∃ type name, s.symbolIdAndFullName.lookup symbolId = some (type, name) ∧
          part.HasType s type := by
  have found : ∀ part ∈ parts, part.symbolId? = some symbolId →
      ∃ type name, s.symbolIdAndFullName.lookup symbolId = some (type, name) ∧
        part.HasType s type := by
    intro part among carries
    obtain ⟨type, name, own, listed, declares⟩ := accounts.declared part among symbolId carries
    refine ⟨place.at_ type, name, ?_, ?_⟩
    · rw [holds.declared, listed]
      rfl
    · exact holds.hasType declares (holds.declaredPlaced _ _ _ listed).1
  refine ⟨⟨?_, ?_⟩, found⟩
  · intro known
    obtain ⟨declaration, listed⟩ := Option.ne_none_iff_exists'.mp known
    rw [holds.declared, Contents.declarations_append, apart, List.nil_append] at listed
    obtain ⟨given, listed', _⟩ := Option.map_eq_some_iff.mp listed
    obtain ⟨part, among, declares⟩ := accounts.declarations _ (Lookup.mem_of_lookup listed')
    cases part with
    | definition => cases declares
    | declaration isVariable scopeName decl => exact ⟨_, among, declares.1⟩
  · rintro ⟨part, among, carries⟩
    obtain ⟨type, name, listed, _⟩ := found part among carries
    rw [listed]
    exact Option.some_ne_none _

/- Corpora. -/

/-- What the reader has after a corpus that it accepts, which it reads after others. -/
theorem processCorpus_accepted {iteration : Iteration} {corpus : Element}
    {symbols : List (String × Id)} (between : Between base earlier s)
    (accepted : (processCorpus iteration corpus).run s = .ok symbols s') :
    ∃ tables said more place, readTables (elfSymbols corpus) = .ok tables ∧ tables.Distinct ∧
      tables.MainsPlain ∧ Loads s' tables ∧ s'.Builds s'.graph s'.symbolInfoMap.keys symbols ∧
      said.declarations = [] ∧ Accounts said (processedAfter earlier corpus) more ∧
      Holds base s' (said ++ more) place := by
  obtain ⟨said, place, holds, apart, defined⟩ := between.holds
  unfold processCorpus at accepted
  obtain ⟨_, _, cleared, accepted⟩ := EStateM.ok_of_run_bind accepted
  cases cleared
  obtain ⟨_, s₁, ranChildren, ranBuild⟩ := EStateM.ok_of_run_bind accepted
  have children := processCorpusChildren_reads 0 corpus.children base s.cleared said place {} holds
    (Loads.start s) Tables.distinct_empty
  obtain ⟨tables, first, _, readFirst, distinct, loads, _, holds₁⟩ := children.returns ranChildren
  change tables.Distinct at distinct
  change Loads s₁ tables at loads
  obtain ⟨plain, _, later, after, readLater, _, _, holds'⟩ :=
    (buildSymbols_reads 0 iteration holds₁ loads distinct).returns ranBuild
  obtain ⟨graph, same, builds⟩ := (buildSymbols_builds iteration s₁).returns ranBuild
  have accounts := corpusChildren_processes 0 _ said _ _ first defined readFirst
  have silent := symbolsOf_processes 0 tables _ _ _ _ _ later
    (defined.append accounts.toTallies) readLater
  have whole := accounts.append silent
  rw [List.append_nil] at whole
  rw [Contents.append_assoc] at holds'
  subst same
  exact ⟨tables, said, first ++ later, after, corpusChildren_tables readFirst, distinct, plain,
    ⟨loads.infos, loads.infoKeys, loads.aliases, loads.aliasKeys⟩,
    ⟨builds.keys, builds.nodes, builds.made⟩, apart, whole, holds'⟩

/-- The attributes that are read do not change the type and the name. -/
theorem readElfSymbol_ok {info : SymbolInfo} {typeId : Option Id} {name : Option String}
    {node : ElfSymbol} (read : readElfSymbol info typeId name = .ok node) :
    node.typeId = typeId ∧ node.fullName = name := by
  unfold readElfSymbol at read
  obtain ⟨_, _, read⟩ := bind_eq_ok read
  obtain ⟨_, _, read⟩ := bind_eq_ok read
  obtain ⟨_, _, read⟩ := bind_eq_ok read
  obtain ⟨_, _, read⟩ := bind_eq_ok read
  obtain ⟨_, _, read⟩ := bind_eq_ok read
  cases read
  exact ⟨rfl, rfl⟩

theorem Corpus.Builds.node {symbols : List (String × Id)} {ids : List String}
    (builds : s.Builds s.graph ids symbols) {id : String} {node : ElfSymbol}
    (given : SymbolNode s symbols id node) : node.typeId = (s.mainDeclaration id).map (·.1) ∧
      node.fullName = (s.mainDeclaration id).map (·.2) := by
  obtain ⟨symbol, among, got⟩ := given
  obtain ⟨info, node', _, got', read⟩ := builds.made _ among
  cases got.symm.trans got'
  exact readElfSymbol_ok read

theorem Loads.mainDeclaration {tables : Tables} (loads : Loads s tables) (id : String) :
    s.mainDeclaration id = s.symbolIdAndFullName.lookup (tables.main id) := by
  rw [Corpus.mainDeclaration, loads.aliases]
  rfl

theorem processCorpus_resolves {iteration : Iteration} {corpus : Element}
    {symbols : List (String × Id)} (between : Between base earlier s)
    (accepted : (processCorpus iteration corpus).run s = .ok symbols s') :
    ∃ tables, readTables (elfSymbols corpus) = .ok tables ∧ tables.Distinct ∧ tables.MainsPlain ∧
      Resolved (elfSymbols corpus) (processedAfter earlier corpus) tables symbols s' := by
  obtain ⟨tables, said, more, place, read, distinct, plain, loads, builds, apart,
    accounts, holds⟩ :=
    processCorpus_accepted between accepted
  refine ⟨tables, read, distinct, plain, ?_⟩
  have keys : s'.symbolInfoMap.keys.Perm (tables.infos.map (·.1)) :=
    (List.reverse_perm _).symm.trans (.of_eq loads.infoKeys)
  have declaration : ∀ id node, SymbolNode s' symbols id node →
      node.typeId = (s'.symbolIdAndFullName.lookup (tables.main id)).map (·.1) := by
    intro id node given
    rw [(builds.node given).1, loads.mainDeclaration]
  constructor
  · exact Tables.readTables_listed read
  · exact distinct.infos
  · exact builds.keys.trans keys
  · exact builds.nodes
  · intro entry among
    have present := (builds.keys.trans keys).mem_iff.mpr (List.mem_map_of_mem among)
    obtain ⟨symbol, among', same⟩ := List.mem_map.mp present
    obtain ⟨info, node, found, got, read'⟩ := builds.made symbol among'
    rw [loads.infos, same, Lookup.lookup_of_mem distinct.infos among] at found
    cases found
    refine ⟨node, ⟨symbol.2, same ▸ among', got⟩, ?_⟩
    obtain ⟨type, name⟩ := readElfSymbol_ok read'
    rwa [type, name]
  · exact fun entry among => Tables.main_alias distinct among
  · exact fun id => plain.main_plain distinct id
  · exact fun id n => plain.main_iterate distinct id n
  · intro id node node' given given'
    have own := builds.node given
    have main := builds.node given'
    rw [loads.mainDeclaration] at own main
    rw [Tables.main_other (plain.main_plain distinct id)] at main
    exact ⟨own.1.trans main.1.symm, own.2.trans main.2.symm⟩
  · intro id node given
    rw [declaration id node given, ne_eq, Option.map_eq_none_iff]
    exact (holds.declaration_iff apart accounts _).1
  · intro id node given part among carries
    obtain ⟨type, name, listed, typed⟩ :=
      (holds.declaration_iff apart accounts _).2 part among carries
    refine ⟨type, ?_, typed⟩
    rw [declaration id node given, listed]
    rfl

/-- Whatever is wrong with a corpus, the reader says so. -/
theorem processCorpus_rejects {iteration : Iteration} {corpus : Element} {reason : Error}
    (between : Between base earlier s)
    (rejected : (processCorpus iteration corpus).run s = .error reason s') :
    reason.IsException := by
  obtain ⟨said, place, holds, apart, _⟩ := between.holds
  exact ((processCorpus_reads 0 iteration corpus holds apart).raises rejected).1

/-- In a corpus that is accepted, after any others, every ELF symbol gets the type that the
declarations of its main symbol have, which one lookup finds. A corpus with an alias that
has aliases or two main symbols, or with two symbols of one id, is rejected with an
`stg::Exception`. -/
theorem processCorpus_aliases (base : Graph) (earlier : List Element) (s : Corpus)
    (iteration : Iteration) (corpus : Element) (between : Between base earlier s) :
    (∀ symbols s', (processCorpus iteration corpus).run s = .ok symbols s' →
      ∃ tables, readTables (elfSymbols corpus) = .ok tables ∧
        Resolved (elfSymbols corpus) (processedAfter earlier corpus) tables symbols s') ∧
    ∀ tables, readTables (elfSymbols corpus) = .ok tables →
      ((∃ entry ∈ tables.aliases, entry.2 ∈ tables.aliases.map (·.1)) ∨
        (∃ item main main', main ≠ main' ∧ (item, main) ∈ tables.aliases ∧
          (item, main') ∈ tables.aliases) ∨
        ¬ (tables.infos.map (·.1)).Nodup) →
      ∃ message s', (processCorpus iteration corpus).run s = .error (.exception message) s' := by
  constructor
  · intro symbols s' accepted
    obtain ⟨tables, read, _, _, resolved⟩ := processCorpus_resolves between accepted
    exact ⟨tables, read, resolved⟩
  · intro tables read bad
    cases ran : (processCorpus iteration corpus).run s with
    | error reason s' =>
      obtain ⟨message, rfl⟩ := processCorpus_rejects between ran
      exact ⟨message, s', rfl⟩
    | ok symbols s' =>
      exfalso
      obtain ⟨tables', read', distinct, plain, _⟩ := processCorpus_resolves between ran
      cases read.symm.trans read'
      rcases bad with ⟨entry, among, present⟩ |
        ⟨item, main, main', different, among, among'⟩ | twice
      · exact plain entry among present
      · apply different
        exact (Tables.main_alias distinct among).symm.trans (Tables.main_alias distinct among')
      · exact twice distinct.infos

/-- The element of a function symbol. -/
def functionSymbol (name : String) (more : List (String × String)) : Element :=
  .mk "elf-symbol" ([("name", name), ("is-defined", "yes"), ("type", "func-type"),
    ("binding", "global-binding"), ("visibility", "default-visibility")] ++ more) []

/-- A corpus with these function symbols. -/
def functionsOf (symbols definitions : List Element) : Element :=
  .mk "abi-corpus" [] [.mk "elf-function-symbols" [] symbols, .mk "abi-instr" [] definitions]

theorem processCorpus_aliases_function :
    (∃ symbols s', (processCorpus .inOrder (functionsOf
        [functionSymbol "f" [("alias", "g")], functionSymbol "g" []]
        [.mk "function-decl" [("name", "f"), ("elf-symbol-id", "f")]
          [.mk "return" [("type-id", "t")] []]])).run { graph := ⟨[]⟩ } = .ok symbols s' ∧
      ∃ tables, readTables (elfSymbols (functionsOf
          [functionSymbol "f" [("alias", "g")], functionSymbol "g" []]
          [.mk "function-decl" [("name", "f"), ("elf-symbol-id", "f")]
            [.mk "return" [("type-id", "t")] []]])) = .ok tables ∧
        Resolved [functionSymbol "f" [("alias", "g")], functionSymbol "g" []]
          [.declaration false "" (.mk "function-decl" [("name", "f"), ("elf-symbol-id", "f")]
            [.mk "return" [("type-id", "t")] []])] tables symbols s') ∧
    ∃ message s', (processCorpus .inOrder (functionsOf
      [functionSymbol "f" [("alias", "g")], functionSymbol "g" [("alias", "h")]] [])).run
        { graph := ⟨[]⟩ } = .error (.exception message) s' := by
  constructor
  · obtain ⟨s', ran⟩ := returns_of_returned (show returned? ((processCorpus .inOrder (functionsOf
        [functionSymbol "f" [("alias", "g")], functionSymbol "g" []]
        [.mk "function-decl" [("name", "f"), ("elf-symbol-id", "f")]
          [.mk "return" [("type-id", "t")] []]])).run { graph := ⟨[]⟩ }) =
        some [("f", ⟨2⟩), ("g", ⟨3⟩)] by decide +kernel)
    exact ⟨_, s', ran, (processCorpus_aliases ⟨[]⟩ [] _ .inOrder _ .start).1 _ s' ran⟩
  · have tables : readTables (elfSymbols (functionsOf
        [functionSymbol "f" [("alias", "g")], functionSymbol "g" [("alias", "h")]] [])) =
        .ok ⟨[("f", ⟨"f", none, functionSymbol "f" [("alias", "g")]⟩),
          ("g", ⟨"g", none, functionSymbol "g" [("alias", "h")]⟩)], [("g", "f"), ("h", "g")]⟩ := rfl
    apply (processCorpus_aliases ⟨[]⟩ [] _ .inOrder _ .start).2 _ tables
    exact .inl ⟨("h", "g"), by decide, by decide⟩

/-- A corpus that defines a class twice, the second time with a member function. -/
def definedTwice : Element :=
  functionsOf [functionSymbol "f" []] [
    .mk "class-decl" [("id", "t"), ("name", "t")] [],
    .mk "class-decl" [("id", "t"), ("name", "t")] [.mk "member-function" [] [
      .mk "function-decl" [("name", "f"), ("mangled-name", "f"), ("elf-symbol-id", "f")]
        [.mk "return" [("type-id", "t")] []]]]]

/-- The declaration of the symbol is in a definition that is passed over. -/
theorem member_untyped : ∃ tables symbols s' node,
    readTables (elfSymbols definedTwice) = .ok tables ∧ tables.main "f" = "f" ∧
      "f" ∈ corpusSymbols definedTwice.children ∧
      (processCorpus .inOrder definedTwice).run { graph := ⟨[]⟩ } = .ok symbols s' ∧
      SymbolNode s' symbols "f" node ∧ node.typeId = none := by
  have tables : readTables (elfSymbols definedTwice) =
      .ok ⟨[("f", ⟨"f", none, functionSymbol "f" []⟩)], []⟩ := rfl
  have ran : made ((processCorpus .inOrder definedTwice).run { graph := ⟨[]⟩ }) =
      some ([("f", ⟨1⟩)], [some (.structUnion ⟨.class_, "t", some ⟨0, [], [], []⟩⟩),
        some (.elfSymbol ⟨"f", none, true, .function, .global, .default, none, none, none⟩)]) := by
    decide +kernel
  obtain ⟨s', ran, nodes⟩ := returns_of_made ran
  change s'.graph.nodes = _ at nodes
  refine ⟨_, _, s', ⟨"f", none, true, .function, .global, .default, none, none, none⟩, tables, rfl,
    by decide +kernel, ran, ⟨⟨1⟩, List.mem_singleton_self _, Graph.get_eq_ok.mpr ?_⟩, rfl⟩
  rw [nodes]
  rfl

end Stg.AbiXml
