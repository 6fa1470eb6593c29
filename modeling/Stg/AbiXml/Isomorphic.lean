import Stg.AbiXml.Permuted
import Stg.AbiXml.Closed

set_option autoImplicit false

/- Documents in another order give the same graph, but for the ids. -/
namespace Stg

open Relation (ReflTransGen)

/-- What is reached from one root is what is reached from the other, with other ids. A
slot that is not set stands for one that is not set. -/
structure Graph.Isomorphism (graph graph' : Graph) (root root' : Id) (f : Id → Id) : Prop where
  roots : f root = root'
  injective : ∀ a b, ReflTransGen graph.Refers root a → ReflTransGen graph.Refers root b →
    f a = f b → a = b
  onto : ∀ id', ReflTransGen graph'.Refers root' id' →
    ∃ id, ReflTransGen graph.Refers root id ∧ f id = id'
  slots : ∀ id, ReflTransGen graph.Refers root id →
    graph'.nodes[(f id).ix]? = graph.nodes[id.ix]?.map (·.map (·.rename f))

namespace AbiXml

variable {base base' : Graph} {s s' : Corpus} {said said' : Contents} {place place' : Place}
  {address : Address} {root root' : Id}

theorem Contents.Perm.content? (perm : said.Perm said') (unique : said.addresses.Nodup)
    (address : Address) : said'.content? address = said.content? address := by
  unfold Contents.content?
  split
  · rfl
  · exact Lookup.lookup_perm unique perm.entries address

theorem Contents.Perm.refers (perm : said.Perm said') (unique : said.addresses.Nodup) :
    said'.Refers = said.Refers := by
  funext address reference
  unfold Contents.Refers
  rw [perm.content? unique]

theorem Contents.Perm.knows (perm : said.Perm said') (address : Address) :
    said'.Knows address ↔ said.Knows address := by
  unfold Contents.Knows
  rw [perm.mentions.mem_iff, perm.addresses.mem_iff]

section

variable (holds : Holds base s said place) (holds' : Holds base' s' said' place')
  (perm : said.Perm said')

include holds holds' perm

/-- What has an id in one reading has one in the other. -/
theorem Holds.moved {id : Id} (placed : place address = some id) :
    place' address = some (place'.at_ address) := by
  have known : place address ≠ none := by
    rw [placed]
    exact Option.some_ne_none id
  have known' := (holds'.known address).mpr
    ((perm.knows address).mpr ((holds.known address).mp known))
  obtain ⟨id', held⟩ := Option.ne_none_iff_exists'.mp known'
  rw [held, Place.at_, held]
  rfl

/-- Each id stands for the id of the same address. -/
theorem Holds.renaming : ∃ f : Id → Id, ∀ address id, place address = some id →
    place' address = some (f id) := by
  have each : ∀ id, ∃ id', ∀ address, place address = some id → place' address = some id' := by
    intro id
    by_cases known : ∃ address, place address = some id
    · obtain ⟨address, placed⟩ := known
      refine ⟨place'.at_ address, fun other placed' => ?_⟩
      cases holds.injective address other id placed placed'
      exact holds.moved holds' perm placed
    · exact ⟨id, fun address placed => absurd ⟨address, placed⟩ known⟩
  choose f each using each
  exact ⟨f, fun address id placed => each id address placed⟩

theorem Holds.isomorphism (placed : place address = some root)
    (placed' : place' address = some root') :
    ∃ f, s.graph.Isomorphism s'.graph root root' f := by
  obtain ⟨f, renames⟩ := holds.renaming holds' perm
  refine ⟨f, ?_, ?_, ?_, ?_⟩
  · exact Option.some.inj ((renames address root placed).symm.trans placed')
  · intro a b reachA reachB same
    obtain ⟨one, _, placedOne⟩ := holds.mirrors.forward_reach placed reachA
    obtain ⟨two, _, placedTwo⟩ := holds.mirrors.forward_reach placed reachB
    have moved := renames one a placedOne
    rw [same] at moved
    cases holds'.injective one two (f b) moved (renames two b placedTwo)
    exact Option.some.inj (placedOne.symm.trans placedTwo)
  · intro id' reach'
    obtain ⟨other, path, held'⟩ := holds'.mirrors.forward_reach placed' reach'
    rw [perm.refers holds.unique] at path
    obtain ⟨id, reach, held⟩ := holds.mirrors.backward_reach placed path
    exact ⟨id, reach, Option.some.inj ((renames other id held).symm.trans held')⟩
  · intro id reach
    obtain ⟨other, _, held⟩ := holds.mirrors.forward_reach placed reach
    rw [holds'.slot other (f id) (renames other id held), holds.slot other id held,
      perm.content? holds.unique]
    cases known : said.content? other with
    | none => rfl
    | some content =>
      have same : ∀ reference ∈ content.references,
          place'.at_ reference = f (place.at_ reference) := by
        intro reference among
        obtain ⟨id, found⟩ := Option.ne_none_iff_exists'.mp
          (holds.closed other content known reference among)
        rw [Place.at_, Place.at_, found, renames reference id found]
        rfl
      simp only [Option.map_some, Content.rename_node]
      rw [Content.node_congr same]

end

/-- The graph that is read is the same, but for the ids. Where both are in one graph and
every reference of the first is set, comparing them finds nothing. -/
structure ReadAlike (first : Graph) (root : Id) (base' second : Graph) (root' : Id) : Prop where
  isomorphic : ∃ f, first.Isomorphism second root root' f
  equal : base' = first → (∀ id, ReflTransGen first.Refers root id → first.Is id) →
    ∀ options fuel answer (compared : State),
      runCompare second options fuel {} root root' = .ok (answer, compared) → answer = (true, none)

/-- A graph and an isomorphic part that has been added to it. -/
theorem Graph.Isomorphism.copies {first second : Graph} {f : Id → Id}
    (isomorphism : first.Isomorphism second root root' f) (extends_ : first.Extends second)
    (closed : ∀ id, ReflTransGen first.Refers root id → first.Is id) :
    second.Copies root root' f := by
  have back : ∀ id, ReflTransGen second.Refers root id → ReflTransGen first.Refers root id := by
    intro id reach
    induction reach with
    | refl => exact .refl
    | tail _ refers ih =>
      obtain ⟨node, got, among⟩ := refers
      obtain ⟨own, gotOwn⟩ := closed _ ih
      cases got.symm.trans (extends_.got gotOwn)
      exact ih.tail ⟨_, gotOwn, among⟩
  refine ⟨isomorphism.roots, fun id node reach got => ?_⟩
  have reach' := back id reach
  obtain ⟨own, gotOwn⟩ := closed id reach'
  cases got.symm.trans (extends_.got gotOwn)
  have slot := isomorphism.slots id reach'
  rw [Graph.get_eq_ok.mp gotOwn] at slot
  exact Graph.get_eq_ok.mpr slot

/-- A document whose corpora are in another order is read alike. -/
theorem processRoot_alike (base base' : Graph) (iteration iteration' : Iteration)
    (fuel fuel' : Nat) {document document' : Element}
    (reordered : DocumentReordered document document')
    (single : DocumentSingle document)
    (accepted : (processRoot iteration fuel document).run { graph := base } = .ok root s) :
    ∃ root' s', (processRoot iteration' fuel' document').run { graph := base' } = .ok root' s' ∧
      ReadAlike s.graph root base' s'.graph root' := by
  obtain ⟨address, contents, place, means, placed, _, holds⟩ :=
    (processRoot_reads base iteration fuel document).returns accepted
  obtain ⟨contents', means', perm⟩ := read_perm iteration' reordered single means
  have reads := processRoot_reads base' iteration' fuel' document'
  cases ran : (processRoot iteration' fuel' document').run { graph := base' } with
  | error reason s' =>
    obtain ⟨_, fails⟩ := reads.raises ran
    cases means'.symm.trans fails
  | ok root' s' =>
    obtain ⟨address', contents'', place', means'', placed', _, holds'⟩ := reads.returns ran
    cases means'.symm.trans means''
    obtain ⟨f, isomorphism⟩ := holds.isomorphism holds' perm placed placed'
    refine ⟨root', s', rfl, ⟨f, isomorphism⟩, ?_⟩
    intro sameBase closed options fuel'' answer compared compares
    have extends_ : s.graph.Extends s'.graph := sameBase ▸ holds'.extends_
    have copies := Graph.Isomorphism.copies isomorphism extends_ closed
    exact (copies.found_equal compares).1

/-- The symbols of a single corpus always make a root. -/
theorem processRoot_of_corpus {iteration : Iteration} (fuel : Nat) {corpus : Element}
    {symbols : List (String × Id)} (named : corpus.name = "abi-corpus")
    (accepted : (processCorpus iteration corpus).run { graph := base } = .ok symbols s) :
    ∃ root s', (processRoot iteration fuel corpus).run { graph := base } = .ok root s' := by
  have names : (symbols.map (·.1)).Nodup :=
    (processCorpus_ascending accepted).imp fun less => less.ne
  have distinct : ((Contribution.mk "" symbols).keys ++ Symbols.empty.keys).Nodup := by
    rw [show Symbols.empty.keys = [] from rfl, List.append_nil]
    exact Contribution.keys_nodup names
  obtain ⟨joined, merged, _⟩ := merge_distinct fuel distinct
  have other : ¬ corpus.name = "abi-corpus-group" := by
    rw [named]
    decide
  have unfolded : processRoot iteration fuel corpus = (do
      let corpusSymbols ← processCorpus iteration corpus
      let symbols ← ofExcept (merge fuel "" corpusSymbols .empty)
      add (.symbols symbols)) := by
    unfold processRoot
    rw [if_neg other, if_pos named]
  have ends : (add (.symbols joined)).Ends s (fun _ _ => True) (fun _ _ => False) :=
    add_ends _ trivial
  rw [unfolded, EStateM.run_bind_of_ok accepted, merged, ofExcept_ok, pure_bind]
  cases ran : (add (.symbols joined)).run s with
  | ok root s' => exact ⟨root, s', rfl⟩
  | error reason s' => exact (ends.raises ran).elim

/-- A root of a single corpus comes from an accepted corpus. -/
theorem corpus_of_processRoot {iteration : Iteration} {fuel : Nat} {corpus : Element}
    (named : corpus.name = "abi-corpus")
    (accepted : (processRoot iteration fuel corpus).run { graph := base } = .ok root s) :
    ∃ symbols s', (processCorpus iteration corpus).run { graph := base } = .ok symbols s' := by
  have other : ¬ corpus.name = "abi-corpus-group" := by
    rw [named]
    decide
  unfold processRoot at accepted
  rw [if_neg other, if_pos named] at accepted
  obtain ⟨symbols, s', ran, _⟩ := EStateM.ok_of_run_bind accepted
  exact ⟨symbols, s', ran⟩

end AbiXml

open AbiXml in
/-- A corpus in which each type id is defined by one element and each symbol carried by
at most one declaration is read alike in any order, by itself and in a group. -/
theorem abiXml_reordered_alike (base base' : Graph) (iteration iteration' : Iteration)
    (fuel fuel' : Nat) :
    (∀ (corpus corpus' : Element) (symbols : List (String × Id)) (s : Corpus),
      corpus.name = "abi-corpus" → CorpusReordered corpus corpus' → Single corpus →
      (processCorpus iteration corpus).run { graph := base } = .ok symbols s →
      (∃ symbols' s', (processCorpus iteration' corpus').run { graph := base' } =
        .ok symbols' s') ∧
      ∃ root t root' t', (processRoot iteration fuel corpus).run { graph := base } = .ok root t ∧
        (processRoot iteration' fuel' corpus').run { graph := base' } = .ok root' t' ∧
        ReadAlike t.graph root base' t'.graph root') ∧
    ∀ (attributes : List (String × String)) (corpora corpora' : List Element) (root : Id)
        (t : Corpus),
      List.Forall₂ CorpusReordered corpora corpora' → (∀ corpus ∈ corpora, Single corpus) →
      (processRoot iteration fuel (.mk "abi-corpus-group" attributes corpora)).run
        { graph := base } = .ok root t →
      ∃ root' t', (processRoot iteration' fuel' (.mk "abi-corpus-group" attributes corpora')).run
          { graph := base' } = .ok root' t' ∧
        ReadAlike t.graph root base' t'.graph root' := by
  constructor
  · intro corpus corpus' symbols s named reordered single accepted
    have other : ¬ corpus.name = "abi-corpus-group" := by
      rw [named]
      decide
    obtain ⟨root, t, ran⟩ := processRoot_of_corpus fuel named accepted
    obtain ⟨root', t', ran', alike⟩ := processRoot_alike base base' iteration iteration' fuel fuel'
      ⟨reordered.name, fun _ => reordered, fun group => absurd group other⟩
      ⟨fun _ => single, fun group => absurd group other⟩ ran
    exact ⟨corpus_of_processRoot (reordered.name.trans named) ran', root, t, root', t', ran, ran',
      alike⟩
  · intro attributes corpora corpora' root t reordered single accepted
    have other : ¬ "abi-corpus-group" = "abi-corpus" := by
      decide
    have documents : DocumentReordered (.mk "abi-corpus-group" attributes corpora)
        (.mk "abi-corpus-group" attributes corpora') :=
      ⟨rfl, fun corpus => absurd corpus other, fun _ => reordered⟩
    have singles : DocumentSingle (.mk "abi-corpus-group" attributes corpora) :=
      ⟨fun corpus => absurd corpus other, fun _ => single⟩
    exact processRoot_alike base base' iteration iteration' fuel fuel' documents singles accepted

namespace AbiXml

def pointerToInt : List Element :=
  [.mk "pointer-type-def" [("id", "p"), ("type-id", "i")] [],
    .mk "type-decl" [("id", "i"), ("name", "int"), ("size-in-bits", "32")] []]

/-- The same declarations and definitions backwards, and before the symbol. -/
def pointerToIntBackwards : Element :=
  .mk "abi-corpus" [] [
    .mk "abi-instr" [] [.mk "type-decl" [("id", "i"), ("name", "int"), ("size-in-bits", "32")] [],
      .mk "pointer-type-def" [("id", "p"), ("type-id", "i")] [],
      .mk "var-decl" [("name", "x"), ("type-id", "p"), ("elf-symbol-id", "x")] []],
    .mk "elf-variable-symbols" [] [.mk "elf-symbol" [("name", "x"), ("is-defined", "yes"),
      ("type", "object-type"), ("binding", "global-binding"),
      ("visibility", "default-visibility")] []]]

theorem pointerToInt_backwards :
    CorpusReordered (variableOf "p" pointerToInt) pointerToIntBackwards where
  name := rfl
  attributes := rfl
  children := by
    apply ChildrenReordered.trans (.swap _ _ _)
    apply ChildrenReordered.scope [] _ (.cons _ .nil)
    apply ScopeReordered.trans (.swap _ _ _)
    apply ScopeReordered.trans (.cons _ (.swap _ _ _))
    exact .swap _ _ _

end AbiXml

open AbiXml in
theorem abiXml_reordered_alike_backwards : ∃ root t root' t',
    (processRoot .inOrder 0 (variableOf "p" pointerToInt)).run { graph := ⟨[]⟩ } = .ok root t ∧
    (processRoot .inOrder 0 pointerToIntBackwards).run { graph := ⟨[]⟩ } = .ok root' t' ∧
    ReadAlike t.graph root ⟨[]⟩ t'.graph root' := by
  obtain ⟨s, ran⟩ := returns_of_returned (show returned? ((processCorpus .inOrder
    (variableOf "p" pointerToInt)).run { graph := ⟨[]⟩ }) = some [("x", ⟨2⟩)] by decide +kernel)
  exact ((abiXml_reordered_alike ⟨[]⟩ ⟨[]⟩ .inOrder .inOrder 0 0).1 (variableOf "p" pointerToInt)
    pointerToIntBackwards _ s rfl pointerToInt_backwards (by decide +kernel) ran).2

end Stg
