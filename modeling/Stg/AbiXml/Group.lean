import Stg.AbiXml.Reader
import Stg.Lib.Ends
import Mathlib.Data.List.Nodup

set_option autoImplicit false

/- How the symbols of the corpora of a group are joined. -/
namespace Stg

namespace SymbolKey

variable {key : SymbolKey}

theorem stream_plain (plain : key.path = "") (fuel : Nat) :
    key.stream (fuel + 1) = .ok key.name := by
  unfold stream
  rw [if_neg (not_not.mpr plain)]
  rfl

/-- A key with a path is streamed again and again. -/
theorem stream_endless (path : key.path ≠ "") (fuel : Nat) :
    key.stream fuel = .error .outOfFuel := by
  induction fuel with
  | zero => rfl
  | succ fuel ih =>
    unfold stream
    rw [if_pos path, ih]
    rfl

/-- Streaming ends with a text that contains the path and the name. -/
def Streams (key : SymbolKey) : Prop :=
  ∃ fuel text, key.stream fuel = .ok text ∧ key.path.toList <:+: text.toList ∧
    key.name.toList <:+: text.toList

theorem streams_iff (key : SymbolKey) : key.Streams ↔ key.path = "" := by
  constructor
  · intro ⟨fuel, text, streamed, _⟩
    by_contra path
    rw [stream_endless path fuel] at streamed
    cases streamed
  · intro plain
    refine ⟨1, key.name, stream_plain plain 0, ?_, List.infix_rfl⟩
    rw [plain]
    exact List.nil_infix

end SymbolKey

namespace AbiXml

/-- The symbols of a corpus under the path of the corpus. -/
structure Contribution where
  path : String
  symbols : List (String × Id)
  deriving DecidableEq

def Contribution.entries (contribution : Contribution) : List (SymbolKey × Id) :=
  contribution.symbols.map fun symbol => (⟨contribution.path, symbol.1⟩, symbol.2)

def Contribution.keys (contribution : Contribution) : List SymbolKey :=
  contribution.entries.map (·.1)

/-- The corpora, processed one after the other, whatever their paths. -/
def processEach (iteration : Iteration) : List Element → Reading (List (List (String × Id)))
  | [] => return []
  | corpus :: corpora => do
    let symbols ← processCorpus iteration corpus
    let others ← processEach iteration corpora
    return symbols :: others

/-- What the corpora contribute, given the symbols of each. -/
def contributed (corpora : List Element) (symbols : List (List (String × Id))) : List Contribution :=
  List.zipWith (fun corpus own => ⟨(getAttribute corpus "path").getD "", own⟩) corpora symbols

/-- The corpus has a path that is not empty and without white space. -/
def HasPath (corpus : Element) : Prop :=
  ∃ path, getAttribute corpus "path" = some path ∧ path ≠ "" ∧ ∀ c ∈ path.toList, isSpace c = false

/-- No two corpora contribute the same key. -/
def Apart (contributions : List Contribution) : Prop :=
  contributions.Pairwise fun first second => first.keys.Disjoint second.keys

/-- Reading the group gives the node of all that the corpora contribute, or it raises an
exception that names a key which two of them contribute. -/
def JoinsOrReports (iteration : Iteration) (group : Element) (base : Graph)
    (contributions : List Contribution) : Prop :=
  (∃ fuel root s symbols, (processRoot iteration fuel group).run { graph := base } = .ok root s ∧
    s.graph.get root = .ok (.symbols symbols) ∧
    symbols.symbols.Perm (contributions.flatMap Contribution.entries)) ∨
  ∃ fuel text s first second key,
    (processRoot iteration fuel group).run { graph := base } =
      .error (.exception ("found duplicate symbol '" ++ text ++ "'")) s ∧
    [first, second].Sublist contributions ∧ key ∈ first.keys ∧ key ∈ second.keys ∧
    key.path.toList <:+: text.toList ∧ key.name.toList <:+: text.toList

variable {iteration : Iteration} {fuel : Nat} {path : String} {symbols joined : Symbols}
  {corpusSymbols : List (String × Id)} {corpora : List Element} {s s' : Corpus}
  {own : List (List (String × Id))}

theorem Contribution.keys_nodup {contribution : Contribution}
    (names : (contribution.symbols.map (·.1)).Nodup) : contribution.keys.Nodup := by
  have keys : contribution.keys =
      (contribution.symbols.map (·.1)).map (SymbolKey.mk contribution.path) := by
    simp [keys, entries, Function.comp_def]
  rw [keys]
  exact names.map fun _ _ same => (SymbolKey.mk.inj same).2

theorem merge_new {name : String} {id : Id} (absent : ⟨path, name⟩ ∉ symbols.keys) :
    merge fuel path ((name, id) :: corpusSymbols) symbols =
      merge fuel path corpusSymbols (symbols.insert ⟨path, name⟩ id) := if_neg absent

/-- A key that has been contributed before is streamed for a message. -/
theorem merge_taken {name : String} {id : Id} (named : path ≠ "")
    (taken : ⟨path, name⟩ ∈ symbols.keys) :
    merge fuel path ((name, id) :: corpusSymbols) symbols = .error .outOfFuel := by
  refine (if_pos taken).trans ?_
  rw [SymbolKey.stream_endless named]
  rfl

/-- Keys that are new are all joined. -/
theorem merge_distinct (fuel : Nat)
    (distinct : ((Contribution.mk path corpusSymbols).keys ++ symbols.keys).Nodup) :
    ∃ joined, merge fuel path corpusSymbols symbols = .ok joined ∧
      joined.symbols.Perm ((Contribution.mk path corpusSymbols).entries ++ symbols.symbols) := by
  induction corpusSymbols generalizing symbols with
  | nil => exact ⟨symbols, rfl, .refl _⟩
  | cons symbol corpusSymbols ih =>
    obtain ⟨name, id⟩ := symbol
    have apart := List.nodup_cons.mp distinct
    have absent : SymbolKey.mk path name ∉ symbols.keys :=
      fun present => apart.1 (List.mem_append_right _ present)
    have keys := @Symbols.keys_insert _ _ id absent
    have distinct' : ((Contribution.mk path corpusSymbols).keys ++
        (symbols.insert ⟨path, name⟩ id).keys).Nodup := by
      have same := (keys.append_left (Contribution.mk path corpusSymbols).keys).trans
        List.perm_middle
      exact same.nodup_iff.mpr distinct
    obtain ⟨joined, merged, entries⟩ := ih distinct'
    refine ⟨joined, (merge_new absent).trans merged, entries.trans ?_⟩
    exact ((Symbols.insert_perm absent).append_left _).trans List.perm_middle

theorem merge_collides (fuel : Nat) (named : path ≠ "") {name : String} {id : Id}
    (own : (name, id) ∈ corpusSymbols) (taken : ⟨path, name⟩ ∈ symbols.keys) :
    merge fuel path corpusSymbols symbols = .error .outOfFuel := by
  induction corpusSymbols generalizing symbols with
  | nil => cases own
  | cons symbol corpusSymbols ih =>
    by_cases present : SymbolKey.mk path symbol.1 ∈ symbols.keys
    · exact merge_taken named present
    · rw [merge_new present]
      rcases List.mem_cons.mp own with rfl | later
      · exact absurd taken present
      · apply ih later
        exact (Symbols.keys_insert present).mem_iff.mpr (List.mem_cons_of_mem _ taken)

theorem merge_not_distinct (fuel : Nat) (named : path ≠ "")
    (names : (corpusSymbols.map (·.1)).Nodup)
    (collide : ¬ ((Contribution.mk path corpusSymbols).keys ++ symbols.keys).Nodup) :
    merge fuel path corpusSymbols symbols = .error .outOfFuel := by
  rw [List.nodup_append'] at collide
  have own : (Contribution.mk path corpusSymbols).keys.Nodup := Contribution.keys_nodup names
  have shared : ¬ (Contribution.mk path corpusSymbols).keys.Disjoint (symbols.keys) :=
    fun apart => collide ⟨own, symbols.keys_nodup, apart⟩
  simp only [List.Disjoint, not_forall] at shared
  obtain ⟨key, first, second, _⟩ := shared
  obtain ⟨entry, among, rfl⟩ := List.mem_map.mp first
  obtain ⟨symbol, present, rfl⟩ := List.mem_map.mp among
  exact merge_collides fuel named present second

/- What a corpus contributes. -/

theorem ofExcept_run {α : Type} {result : Except Error α} {value : α}
    (ran : (ofExcept result : Reading α).run s = .ok value s') : result = .ok value ∧ s' = s := by
  cases result with
  | ok given =>
    cases ran
    exact ⟨rfl, rfl⟩
  | error reason => cases ran

theorem buildSymbolsOf_ascending {ids : List String} {symbols result : List (String × Id)}
    (ascending : (symbols.map (·.1)).Pairwise (· < ·))
    (ran : (buildSymbolsOf ids symbols).run s = .ok result s') :
    (result.map (·.1)).Pairwise (· < ·) := by
  induction ids generalizing symbols s with
  | nil =>
    cases ran
    exact ascending
  | cons id ids ih =>
    unfold buildSymbolsOf at ran
    obtain ⟨t, _, got, ran⟩ := EStateM.ok_of_run_bind ran
    cases got
    split at ran
    · obtain ⟨symbol, _, _, ran⟩ := EStateM.ok_of_run_bind ran
      exact ih (Ordered.ascending_insert ascending) ran
    · exact ih ascending ran

theorem processCorpus_ascending {corpus : Element} {result : List (String × Id)}
    (ran : (processCorpus iteration corpus).run s = .ok result s') :
    (result.map (·.1)).Pairwise (· < ·) := by
  obtain ⟨_, _, _, ran⟩ := EStateM.ok_of_run_bind ran
  obtain ⟨_, _, _, ran⟩ := EStateM.ok_of_run_bind ran
  obtain ⟨_, _, _, ran⟩ := EStateM.ok_of_run_bind ran
  obtain ⟨_, _, _, ran⟩ := EStateM.ok_of_run_bind ran
  obtain ⟨_, _, _, ran⟩ := EStateM.ok_of_run_bind ran
  exact buildSymbolsOf_ascending .nil ran

/-- What accepting the first of the corpora says. -/
theorem processEach_cons {corpus : Element}
    (ran : (processEach iteration (corpus :: corpora)).run s = .ok own s') :
    ∃ symbols t others, (processCorpus iteration corpus).run s = .ok symbols t ∧
      (processEach iteration corpora).run t = .ok others s' ∧ own = symbols :: others := by
  obtain ⟨symbols, t, processed, afterCorpus⟩ := EStateM.ok_of_run_bind ran
  obtain ⟨others, _, rest, last⟩ := EStateM.ok_of_run_bind afterCorpus
  cases last
  exact ⟨symbols, t, others, processed, rest, rfl⟩

theorem contributed_named (ran : (processEach iteration corpora).run s = .ok own s') :
    ∀ contribution ∈ contributed corpora own, (contribution.symbols.map (·.1)).Nodup := by
  induction corpora generalizing s own with
  | nil => exact fun _ among => nomatch among
  | cons corpus corpora ih =>
    obtain ⟨symbols, t, others, processed, rest, rfl⟩ := processEach_cons ran
    intro contribution among
    rcases List.mem_cons.mp among with rfl | later
    · exact (processCorpus_ascending processed).imp fun less => less.ne
    · exact ih rest contribution later

/- The paths. -/

theorem parseString_eq_some_iff {value text : String} : parseString value = some text ↔
    text = value ∧ value ≠ "" ∧ ∀ c ∈ value.toList, isSpace c = false := by
  unfold parseString
  split
  · rename_i refused
    refine iff_of_false nofun ?_
    rintro ⟨_, filled, plain⟩
    rcases refused with empty | spaced
    · exact filled empty
    · obtain ⟨c, among, space⟩ := List.any_eq_true.mp spaced
      rw [plain c among] at space
      cases space
  · rename_i taken
    rw [not_or, Bool.not_eq_true, List.any_eq_false] at taken
    constructor
    · rintro ⟨⟩
      exact ⟨rfl, taken.1, fun c among => Bool.eq_false_iff.mpr (taken.2 c among)⟩
    · rintro ⟨rfl, _⟩
      rfl

theorem readAttributeOrDie_given {α : Type} {parse : String → Option α} {element : Element}
    {name value : String} (given : getAttribute element name = some value) :
    readAttributeOrDie parse element name = getParsedValueOrDie parse element name value := by
  rw [readAttributeOrDie, getAttributeOrDie, given]
  rfl

theorem HasPath.read {corpus : Element} (has : HasPath corpus) : ∃ path, path ≠ "" ∧
    readAttributeOrDie parseString corpus "path" = .ok path ∧
      (getAttribute corpus "path").getD "" = path := by
  obtain ⟨path, given, filled, plain⟩ := has
  have parsed : parseString path = some path := parseString_eq_some_iff.mpr ⟨rfl, filled, plain⟩
  refine ⟨path, filled, ?_, by rw [given]; rfl⟩
  rw [readAttributeOrDie_given given, getParsedValueOrDie, parsed]

theorem not_duplicate {rest text : String}
    (same : "element '" ++ rest = "found duplicate symbol '" ++ text ++ "'") : False := by
  rw [← String.toList_inj, String.toList_append, String.toList_append, String.toList_append,
    List.append_assoc] at same
  have heads := congrArg List.head? same
  rw [List.head?_append_of_ne_nil _ (by decide : "element '".toList ≠ []),
    List.head?_append_of_ne_nil _ (by decide : "found duplicate symbol '".toList ≠ [])] at heads
  exact absurd heads (by decide)

/-- No other path is read, and the message about it is not about a symbol. -/
theorem path_refused {corpus : Element} (pathless : ¬ HasPath corpus) : ∃ message,
    readAttributeOrDie parseString corpus "path" = .error (.exception message) ∧
      ∀ text, message ≠ "found duplicate symbol '" ++ text ++ "'" := by
  cases given : getAttribute corpus "path" with
  | none =>
    refine ⟨"element '" ++ (corpus.name ++ "' missing attribute '" ++ "path" ++ "'"), ?_, fun _ =>
      not_duplicate⟩
    rw [readAttributeOrDie, getAttributeOrDie, given]
    simp only [String.append_assoc]
    rfl
  | some path =>
    have refused : parseString path = none := by
      rw [Option.eq_none_iff_forall_ne_some]
      intro text parsed
      exact pathless ⟨path, given, (parseString_eq_some_iff.mp parsed).2⟩
    refine ⟨"element '" ++ (corpus.name ++ "' has attribute '" ++ "path" ++ "' with bad value '" ++
      path ++ "'"), ?_, fun _ => not_duplicate⟩
    rw [readAttributeOrDie_given given, getParsedValueOrDie, refused]
    simp only [String.append_assoc]
    rfl

/-- A corpus of a group is read with its path. -/
theorem processCorpora_cons {corpus : Element} {symbols' : List (String × Id)} {t : Corpus}
    (named : corpus.name = "abi-corpus")
    (given : readAttributeOrDie parseString corpus "path" = .ok path)
    (processed : (processCorpus iteration corpus).run s = .ok symbols' t) :
    (processCorpora iteration fuel (corpus :: corpora) symbols).run s =
      (do
        let symbols ← ofExcept (merge fuel path symbols' symbols)
        processCorpora iteration fuel corpora symbols : Reading Symbols).run t := by
  have checked : checkElementName "abi-corpus" corpus = .ok () := by
    rw [checkElementName, named]
    rfl
  rw [processCorpora, checked, given, ofExcept_ok, ofExcept_ok, pure_bind, pure_bind,
    EStateM.run_bind_of_ok processed]

/-- The corpora are joined when all the keys are distinct, and the message about one that
is not never gets done. -/
theorem processCorpora_run (fuel : Nat) (ran : (processEach iteration corpora).run s = .ok own s')
    (named : ∀ corpus ∈ corpora, corpus.name = "abi-corpus")
    (paths : ∀ corpus ∈ corpora, HasPath corpus) :
    (((contributed corpora own).flatMap Contribution.keys ++ symbols.keys).Nodup →
      ∃ joined, (processCorpora iteration fuel corpora symbols).run s = .ok joined s' ∧
        joined.symbols.Perm ((contributed corpora own).flatMap Contribution.entries ++
          symbols.symbols)) ∧
    (¬ ((contributed corpora own).flatMap Contribution.keys ++ symbols.keys).Nodup →
      ∃ s'', (processCorpora iteration fuel corpora symbols).run s = .error .outOfFuel s'') := by
  induction corpora generalizing s symbols own with
  | nil =>
    cases ran
    constructor
    · intro _
      exact ⟨symbols, rfl, .refl _⟩
    · intro collide
      exact absurd symbols.keys_nodup collide
  | cons corpus corpora ih =>
    have names := contributed_named ran
    obtain ⟨corpusSymbols, t, others, processed, rest, rfl⟩ := processEach_cons ran
    obtain ⟨ownName, named⟩ := List.forall_mem_cons.mp named
    obtain ⟨ownPath, paths⟩ := List.forall_mem_cons.mp paths
    obtain ⟨path, filled, given, same⟩ := ownPath.read
    have first : contributed (corpus :: corpora) (corpusSymbols :: others) =
        ⟨path, corpusSymbols⟩ :: contributed corpora others := by
      rw [← same]
      rfl
    rw [first] at names ⊢
    rw [processCorpora_cons ownName given processed]
    by_cases own : ((Contribution.mk path corpusSymbols).keys ++ symbols.keys).Nodup
    · obtain ⟨first, merged, entries⟩ := merge_distinct fuel own
      rw [merged, ofExcept_ok, pure_bind]
      have keys : ((contributed corpora others).flatMap Contribution.keys ++ first.keys).Perm
          (((⟨path, corpusSymbols⟩ : Contribution) :: contributed corpora others).flatMap
            Contribution.keys ++
            symbols.keys) := by
        have joined : (first.keys).Perm
            ((Contribution.mk path corpusSymbols).keys ++ symbols.keys) := by
          have mapped := entries.map (·.1)
          rwa [List.map_append] at mapped
        refine (joined.append_left _).trans ?_
        rw [List.flatMap_cons, List.append_assoc]
        exact List.perm_append_comm_assoc _ _ _
      rw [← keys.nodup_iff]
      obtain ⟨returns, raises⟩ := @ih first _ _ rest named paths
      constructor
      · intro distinct
        obtain ⟨joined, processed, later⟩ := returns distinct
        refine ⟨joined, processed, later.trans ((entries.append_left _).trans ?_)⟩
        rw [List.flatMap_cons, List.append_assoc]
        exact List.perm_append_comm_assoc _ _ _
      · exact raises
    · rw [merge_not_distinct fuel filled (names _ List.mem_cons_self) own]
      constructor
      · intro distinct
        apply absurd _ own
        rw [List.flatMap_cons, List.append_assoc] at distinct
        exact distinct.sublist ((List.Sublist.refl _).append (List.sublist_append_right _ _))
      · intro _
        exact ⟨t, rfl⟩

/-- Where a corpus has no path that can be read, the group is refused or never read. -/
theorem processCorpora_pathless (fuel : Nat)
    (ran : (processEach iteration corpora).run s = .ok own s')
    (named : ∀ corpus ∈ corpora, corpus.name = "abi-corpus")
    (pathless : ∃ corpus ∈ corpora, ¬ HasPath corpus) :
    ∃ reason s'', (processCorpora iteration fuel corpora symbols).run s = .error reason s'' ∧
      ∀ text, reason ≠ .exception ("found duplicate symbol '" ++ text ++ "'") := by
  induction corpora generalizing s symbols own with
  | nil =>
    obtain ⟨_, among, _⟩ := pathless
    cases among
  | cons corpus corpora ih =>
    have names := contributed_named ran
    obtain ⟨corpusSymbols, t, others, processed, rest, rfl⟩ := processEach_cons ran
    obtain ⟨ownName, named⟩ := List.forall_mem_cons.mp named
    by_cases has : HasPath corpus
    · obtain ⟨path, filled, given, same⟩ := has.read
      have first : (corpusSymbols.map (·.1)).Nodup := names _ List.mem_cons_self
      rw [processCorpora_cons ownName given processed]
      by_cases distinct : ((Contribution.mk path corpusSymbols).keys ++ symbols.keys).Nodup
      · obtain ⟨joined, merged, _⟩ := merge_distinct fuel distinct
        rw [merged, ofExcept_ok, pure_bind]
        refine ih rest named ?_
        obtain ⟨other, among, without⟩ := pathless
        rcases List.mem_cons.mp among with rfl | later
        · exact absurd has without
        · exact ⟨other, later, without⟩
      · rw [merge_not_distinct fuel filled first distinct]
        exact ⟨_, t, rfl, nofun⟩
    · obtain ⟨message, refused, other⟩ := path_refused has
      have checked : checkElementName "abi-corpus" corpus = .ok () := by
        rw [checkElementName, ownName]
        rfl
      refine ⟨.exception message, s, ?_, fun text same => other text (Error.exception.inj same)⟩
      rw [processCorpora, checked, refused, ofExcept_ok, pure_bind]
      rfl

theorem apart_iff (ran : (processEach iteration corpora).run s = .ok own s') :
    ((contributed corpora own).flatMap Contribution.keys ++ Symbols.empty.keys).Nodup ↔
      Apart (contributed corpora own) := by
  have names := contributed_named ran
  have none : Symbols.empty.keys = [] := rfl
  rw [none, List.append_nil, List.nodup_flatMap]
  exact ⟨fun both => both.2,
    fun apart => ⟨fun contribution among =>
      Contribution.keys_nodup (names contribution among), apart⟩⟩

theorem processRoot_group (fuel : Nat) (attributes : List (String × String)) :
    processRoot iteration fuel (.mk "abi-corpus-group" attributes corpora) =
      (do
        let symbols ← processCorpora iteration fuel corpora .empty
        add (.symbols symbols)) := rfl

theorem joinsOrReports_of_apart {attributes : List (String × String)} {base : Graph}
    (ran : (processEach iteration corpora).run { graph := base } = .ok own s)
    (named : ∀ corpus ∈ corpora, corpus.name = "abi-corpus")
      (paths : ∀ corpus ∈ corpora, HasPath corpus)
    (apart : Apart (contributed corpora own)) :
    JoinsOrReports iteration (.mk "abi-corpus-group" attributes corpora) base
      (contributed corpora own) := by
  rw [← apart_iff ran] at apart
  obtain ⟨joined, processed, entries⟩ := (processCorpora_run 0 ran named paths).1 apart
  left
  refine ⟨0, ⟨s.graph.nodes.length⟩,
    { s with graph := ⟨s.graph.nodes ++ [some (.symbols joined)]⟩ },
    joined, ?_, ?_, ?_⟩
  · rw [processRoot_group, EStateM.run_bind_of_ok processed]
    exact add_run s _
  · simp [Graph.get]
  · have none : Symbols.empty.symbols = [] := rfl
    rwa [none, List.append_nil] at entries

theorem not_joinsOrReports {attributes : List (String × String)} {base : Graph}
    {contributions : List Contribution}
    (fails : ∀ fuel, ∃ reason s', (processCorpora iteration fuel corpora .empty).run
      { graph := base } =
      .error reason s' ∧ ∀ text, reason ≠ .exception ("found duplicate symbol '" ++ text ++ "'")) :
    ¬ JoinsOrReports iteration (.mk "abi-corpus-group" attributes corpora) base contributions := by
  rintro (⟨fuel, _, _, _, returned, _⟩ | ⟨fuel, text, _, _, _, _, raised, _⟩)
  · obtain ⟨reason, _, failed, _⟩ := fails fuel
    rw [processRoot_group, EStateM.run_bind_of_error failed] at returned
    cases returned
  · obtain ⟨reason, _, failed, other⟩ := fails fuel
    rw [processRoot_group, EStateM.run_bind_of_error failed] at raised
    exact other text (EStateM.Result.error.inj raised).1

theorem joinsOrReports_iff {attributes : List (String × String)} {base : Graph}
    (ran : (processEach iteration corpora).run { graph := base } = .ok own s)
    (named : ∀ corpus ∈ corpora, corpus.name = "abi-corpus") :
    JoinsOrReports iteration (.mk "abi-corpus-group" attributes corpora) base
      (contributed corpora own) ↔
      (∀ corpus ∈ corpora, HasPath corpus) ∧ Apart (contributed corpora own) := by
  refine ⟨fun either => ?_, fun ⟨paths, apart⟩ => joinsOrReports_of_apart ran named paths apart⟩
  by_cases paths : ∀ corpus ∈ corpora, HasPath corpus
  · refine ⟨paths, ?_⟩
    by_contra collide
    rw [← apart_iff ran] at collide
    refine not_joinsOrReports (fun fuel => ?_) either
    obtain ⟨s', failed⟩ := (processCorpora_run fuel ran named paths).2 collide
    exact ⟨_, s', failed, nofun⟩
  · push Not at paths
    exact absurd either (not_joinsOrReports fun fuel =>
      processCorpora_pathless fuel ran named paths)

/-- The symbols of a group whose corpora are accepted are joined or a key that is not
unique is reported, if and only if every corpus has a path that can be read and there is no
such key. Streaming a key ends with a text that contains it if and only if the key has no
path. -/
theorem processRoot_group_iff (iteration : Iteration) (attributes : List (String × String))
    (corpora : List Element) (base : Graph) (own : List (List (String × Id))) (s : Corpus)
    (named : ∀ corpus ∈ corpora, corpus.name = "abi-corpus")
    (accepted : (processEach iteration corpora).run { graph := base } = .ok own s) :
    (JoinsOrReports iteration (.mk "abi-corpus-group" attributes corpora) base
      (contributed corpora own) ↔
      (∀ corpus ∈ corpora, HasPath corpus) ∧ Apart (contributed corpora own)) ∧
    ∀ key : SymbolKey, key.Streams ↔ key.path = "" :=
  ⟨joinsOrReports_iff accepted named, SymbolKey.streams_iff⟩

/-- The value of a call that returns. -/
def returned? {α : Type} : EStateM.Result Error Corpus α → Option α
  | .ok value _ => some value
  | .error _ _ => none

theorem returns_of_returned {α : Type} {result : EStateM.Result Error Corpus α} {value : α}
    (returned : returned? result = some value) : ∃ s, result = .ok value s := by
  cases result with
  | ok given s =>
    cases returned
    exact ⟨s, rfl⟩
  | error => cases returned

def Iteration.inOrder : Iteration := ⟨fun keys => keys, fun _ => .refl _⟩

/-- A corpus with one symbol, which has no declaration. -/
def corpusOf (path name : String) : Element :=
  .mk "abi-corpus" [("path", path)] [.mk "elf-variable-symbols" [] [.mk "elf-symbol"
    [("name", name), ("is-defined", "yes"), ("type", "object-type"),
      ("binding", "global-binding"), ("visibility", "default-visibility")] []]]

theorem processRoot_group_iff_other :
    JoinsOrReports .inOrder (.mk "abi-corpus-group" [] [corpusOf "a" "x", corpusOf "b" "x"]) ⟨[]⟩
      [⟨"a", [("x", ⟨0⟩)]⟩, ⟨"b", [("x", ⟨1⟩)]⟩] := by
  obtain ⟨s, ran⟩ := returns_of_returned (show returned?
    ((processEach .inOrder [corpusOf "a" "x", corpusOf "b" "x"]).run { graph := ⟨[]⟩ }) =
      some [[("x", ⟨0⟩)], [("x", ⟨1⟩)]] by decide +kernel)
  have named : ∀ corpus ∈ [corpusOf "a" "x", corpusOf "b" "x"], corpus.name = "abi-corpus" := by
    decide
  refine (processRoot_group_iff .inOrder [] _ _ _ s named ran).1.mpr ⟨?_, ?_⟩
  · have plain : isSpace 'a' = false ∧ isSpace 'b' = false := by decide
    refine List.forall_mem_cons.mpr
      ⟨⟨"a", rfl, by decide, List.forall_mem_singleton.mpr plain.1⟩, ?_⟩
    exact List.forall_mem_singleton.mpr
      ⟨"b", rfl, by decide, List.forall_mem_singleton.mpr plain.2⟩
  · rw [← apart_iff ran]
    decide +kernel

/-- Two corpora with the same path and a symbol of the same name: reading the group never
returns and never raises an exception. A corpus with an empty path: the group is refused,
although no two of its corpora contribute the same. -/
theorem same_path_endless : ∃ own s own' s',
    (processEach .inOrder [corpusOf "a" "x", corpusOf "a" "x"]).run { graph := ⟨[]⟩ } = .ok own s ∧
    ¬ JoinsOrReports .inOrder (.mk "abi-corpus-group" [] [corpusOf "a" "x", corpusOf "a" "x"]) ⟨[]⟩
      (contributed [corpusOf "a" "x", corpusOf "a" "x"] own) ∧
    (processEach .inOrder [corpusOf "" "x"]).run { graph := ⟨[]⟩ } = .ok own' s' ∧
    Apart (contributed [corpusOf "" "x"] own') ∧
    ¬ JoinsOrReports .inOrder (.mk "abi-corpus-group" [] [corpusOf "" "x"]) ⟨[]⟩
      (contributed [corpusOf "" "x"] own') ∧
    ¬ SymbolKey.Streams ⟨"a", "x"⟩ := by
  obtain ⟨s, ran⟩ := returns_of_returned (show returned?
    ((processEach .inOrder [corpusOf "a" "x", corpusOf "a" "x"]).run { graph := ⟨[]⟩ }) =
      some [[("x", ⟨0⟩)], [("x", ⟨1⟩)]] by decide +kernel)
  obtain ⟨s', ran'⟩ := returns_of_returned (show returned?
    ((processEach .inOrder [corpusOf "" "x"]).run { graph := ⟨[]⟩ }) = some [[("x", ⟨0⟩)]] by
      decide +kernel)
  refine ⟨_, s, _, s', ran, ?_, ran', List.pairwise_singleton _ _, ?_, ?_⟩
  · rw [joinsOrReports_iff ran (by decide), ← apart_iff ran, not_and]
    exact fun _ => by decide +kernel
  · rw [joinsOrReports_iff ran' (by decide)]
    rintro ⟨paths, _⟩
    obtain ⟨path, given, filled, _⟩ := paths _ List.mem_cons_self
    cases given
    exact filled rfl
  · rw [SymbolKey.streams_iff]
    decide

end AbiXml

end Stg
