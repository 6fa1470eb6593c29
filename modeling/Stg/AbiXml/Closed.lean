import Stg.AbiXml.Corpora
import Stg.AbiXml.Group
import Stg.Lib.Cycle

set_option autoImplicit false

/- When the graph that is read has no dangling reference. -/
namespace Stg.AbiXml

open Relation (ReflTransGen)

namespace Contents

variable (contents : Contents)

def Refers (address reference : Address) : Prop :=
  ∃ content, contents.content? address = some content ∧ reference ∈ content.references

/-- Something is said of the address. -/
def Defines (address : Address) : Prop := ∃ content, contents.content? address = some content

end Contents

variable {base : Graph} {s : Corpus} {said : Contents} {place : Place}

section

variable (holds : Holds base s said place)

include holds

/-- What is set is what something is said of. -/
theorem Holds.is_iff {address : Address} {id : Id} (placed : place address = some id) :
    s.graph.Is id ↔ said.Defines address := by
  rw [Graph.is_iff, holds.slot address id placed]
  unfold Contents.Defines
  cases said.content? address with
  | none => simp
  | some content => simp

theorem Holds.get {address : Address} {id : Id} {content : Content}
    (placed : place address = some id)
    (known : said.content? address = some content) :
    s.graph.get id = .ok (content.node place.at_) := by
  rw [Graph.get_eq_ok, holds.slot address id placed, known]
  rfl

/-- What is said of an address is said once. -/
theorem Holds.content_of_mem {address : Address} {content : Content}
    (among : (address, content) ∈ said.entries) : said.content? address = some content := by
  have explicit : address ≠ .variadic := by
    rintro rfl
    exact holds.variadicImplicit (List.mem_map_of_mem among)
  rw [Contents.content?, if_neg explicit]
  exact Lookup.lookup_of_mem holds.unique among

theorem Holds.content {address : Address} {id : Id} {node : Node} (placed : place address = some id)
    (got : s.graph.get id = .ok node) :
    ∃ content, said.content? address = some content ∧ node = content.node place.at_ := by
  obtain ⟨content, known⟩ := (holds.is_iff placed).mp ⟨node, got⟩
  have own := holds.get placed known
  exact ⟨content, known, Except.ok.inj (got.symm.trans own)⟩

/-- The ids refer to each other as the addresses do. -/
theorem Holds.mirrors :
    Cycle.Mirrors said.Refers s.graph.Refers (fun address id => place address = some id) where
  forward := by
    rintro address id next placed ⟨node, got, among⟩
    obtain ⟨content, known, rfl⟩ := holds.content placed got
    rw [Content.node_references] at among
    obtain ⟨reference, listed, rfl⟩ := List.mem_map.mp among
    refine ⟨reference, ⟨content, known, listed⟩, ?_⟩
    obtain ⟨id', held⟩ := Option.ne_none_iff_exists'.mp
      (holds.closed address content known reference listed)
    rw [Place.at_, held]
    rfl
  backward := by
    rintro address reference id placed ⟨content, known, among⟩
    obtain ⟨id', held⟩ := Option.ne_none_iff_exists'.mp
      (holds.closed address content known reference among)
    refine ⟨id', ⟨_, holds.get placed known, ?_⟩, held⟩
    have found : place.at_ reference = id' := by
      rw [Place.at_, held]
      rfl
    rw [Content.node_references, ← found]
    exact List.mem_map_of_mem among
  key address other id _ _ placed placed' := holds.injective address other id placed placed'
  element address _ id id' _ placed placed' := Option.some.inj (placed.symm.trans placed')

theorem Holds.reachable_set_iff {address : Address} {root : Id}
    (placed : place address = some root) :
    (∀ id, ReflTransGen s.graph.Refers root id → s.graph.Is id) ↔
      ∀ reached, ReflTransGen said.Refers address reached → said.Defines reached := by
  constructor
  · intro closed reached reach
    obtain ⟨id, path, held⟩ := holds.mirrors.backward_reach placed reach
    exact (holds.is_iff held).mp (closed id path)
  · intro defined id path
    obtain ⟨reached, reach, held⟩ := holds.mirrors.forward_reach placed path
    exact (holds.is_iff held).mpr (defined reached reach)

theorem Holds.mentions_set_iff :
    (∀ typeId id, s.typeIds.lookup typeId = some id → s.graph.Is id) ↔
      ∀ typeId, .type typeId ∈ said.mentions → said.Defines (.type typeId) := by
  constructor
  · intro set typeId among
    obtain ⟨id, held⟩ := Option.ne_none_iff_exists'.mp ((holds.known _).mpr (.inl among))
    exact (holds.is_iff held).mp (set typeId id ((holds.type typeId).trans held))
  · intro defined typeId id found
    have held := (holds.type typeId).symm.trans found
    apply (holds.is_iff held).mpr
    have known : place (.type typeId) ≠ none := by
      rw [held]
      exact Option.some_ne_none id
    rcases (holds.known _).mp known with among | present
    · exact defined typeId among
    · cases said? : said.content? (.type typeId) with
      | some content => exact ⟨content, said?⟩
      | none =>
        rw [Contents.content?, if_neg (Address.type_ne_variadic typeId),
          Contents.lookup_eq_none_iff] at said?
        exact absurd present said?

end

/-- The reader leaves no dangling reference behind the root that it returns if and only if
every type that the document refers to from there is defined by an element that is
processed. All the types that it has given ids are set if and only if all that are
mentioned are defined. -/
theorem processRoot_closed_iff (base : Graph) (iteration : Iteration) (fuel : Nat)
    (element : Element) (root : Id) (s : Corpus)
    (accepted : (processRoot iteration fuel element).run { graph := base } = .ok root s) :
    ∃ address contents, read iteration element = .ok (address, contents) ∧
      ((∀ id, ReflTransGen s.graph.Refers root id → s.graph.Is id) ↔
        ∀ reached, ReflTransGen contents.Refers address reached → contents.Defines reached) ∧
      ((∀ typeId id, s.typeIds.lookup typeId = some id → s.graph.Is id) ↔
        ∀ typeId, .type typeId ∈ contents.mentions → contents.Defines (.type typeId)) := by
  obtain ⟨address, contents, place, means, placed, _, holds⟩ :=
    (processRoot_reads base iteration fuel element).returns accepted
  exact ⟨address, contents, means, holds.reachable_set_iff placed, holds.mentions_set_iff⟩

/-- A corpus with one symbol that is declared as a variable of the type of some id, and
with some definitions. -/
def variableOf (typeId : String) (definitions : List Element) : Element :=
  .mk "abi-corpus" [] [
    .mk "elf-variable-symbols" [] [.mk "elf-symbol" [("name", "x"), ("is-defined", "yes"),
      ("type", "object-type"), ("binding", "global-binding"),
      ("visibility", "default-visibility")] []],
    .mk "abi-instr" [] (.mk "var-decl" [("name", "x"), ("type-id", typeId),
      ("elf-symbol-id", "x")] [] :: definitions)]

theorem processRoot_closed_pointer :
    ∃ root s address contents,
      (processRoot .inOrder 0 (variableOf "p" [.mk "pointer-type-def"
        [("id", "p"), ("type-id", "p")] []])).run { graph := ⟨[]⟩ } = .ok root s ∧
      read .inOrder (variableOf "p" [.mk "pointer-type-def" [("id", "p"), ("type-id", "p")] []]) =
        .ok (address, contents) ∧
      ((∀ id, ReflTransGen s.graph.Refers root id → s.graph.Is id) ↔
        ∀ reached, ReflTransGen contents.Refers address reached → contents.Defines reached) := by
  obtain ⟨s, ran⟩ := returns_of_returned (show returned? ((processRoot .inOrder 0 (variableOf "p"
    [.mk "pointer-type-def" [("id", "p"), ("type-id", "p")] []])).run { graph := ⟨[]⟩ }) =
      some ⟨2⟩ by decide +kernel)
  obtain ⟨address, contents, means, closed, _⟩ := processRoot_closed_iff ⟨[]⟩ .inOrder 0 _ _ s ran
  exact ⟨_, s, address, contents, ran, means, closed⟩

/-- A variable of a type that nothing defines is accepted. -/
theorem variable_dangling : ∃ root s,
    (processRoot .inOrder 0 (variableOf "missing" [])).run { graph := ⟨[]⟩ } = .ok root s ∧
      ∃ id, ReflTransGen s.graph.Refers root id ∧ ¬ s.graph.Is id := by
  have ran : made ((processRoot .inOrder 0 (variableOf "missing" [])).run { graph := ⟨[]⟩ }) =
      some (⟨2⟩, [none, some (.elfSymbol ⟨"x", none, true, .object, .global, .default, none,
        some ⟨0⟩, some "x"⟩), some (.symbols ⟨[(⟨"", "x"⟩, ⟨1⟩)], by decide⟩)]) := by
    decide +kernel
  obtain ⟨s, ran, nodes⟩ := returns_of_made ran
  change s.graph.nodes = _ at nodes
  have symbol : s.graph.Refers ⟨2⟩ ⟨1⟩ := by
    refine ⟨.symbols ⟨[(⟨"", "x"⟩, ⟨1⟩)], by decide⟩, Graph.get_eq_ok.mpr ?_, by decide⟩
    rw [nodes]
    rfl
  have type : s.graph.Refers ⟨1⟩ ⟨0⟩ := by
    refine ⟨.elfSymbol ⟨"x", none, true, .object, .global, .default, none, some ⟨0⟩, some "x"⟩,
      Graph.get_eq_ok.mpr ?_, by decide⟩
    rw [nodes]
    rfl
  refine ⟨⟨2⟩, s, ran, ⟨0⟩, .tail (.single symbol) type, ?_⟩
  rw [Graph.is_iff, nodes]
  rintro ⟨node, held⟩
  cases held

end Stg.AbiXml
