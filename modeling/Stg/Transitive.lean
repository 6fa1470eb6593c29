import Stg.Equal

set_option autoImplicit false

/- Equality under default options is transitive, up to the storage of integers. -/
namespace Stg

variable {graph : Graph} {S S' : Id → Id → Prop}

section Compose

variable {α β γ : Type} {R : α → β → Prop} {R' : β → γ → Prop}

theorem forall₂_comp {xs : List α} {ys : List β} {zs : List γ} (first : List.Forall₂ R xs ys)
    (second : List.Forall₂ R' ys zs) : List.Forall₂ (Relation.Comp R R') xs zs := by
  induction first generalizing zs with
  | nil =>
    cases second
    exact .nil
  | cons head _ ih =>
    cases second with
    | cons head' tail' => exact .cons ⟨_, head, head'⟩ (ih tail')

end Compose

theorem NodesMatch.trans {nodes1 nodes2 nodes3 : List Id}
    (first : NodesMatch graph S nodes1 nodes2) (second : NodesMatch graph S' nodes2 nodes3) :
    NodesMatch graph (Relation.Comp S S') nodes1 nodes3 := by
  obtain ⟨entries1, entries2, keyed1, keyed2, related⟩ := first
  obtain ⟨_, entries3, keyed2', keyed3, related'⟩ := second
  cases keyed2.unique keyed2'
  refine ⟨entries1, entries3, keyed1, keyed3, (forall₂_comp related related').imp ?_⟩
  rintro entry1 entry3 ⟨entry2, ⟨key, held⟩, key', held'⟩
  exact ⟨key.trans key', entry2.2, held, held'⟩

theorem StructUnion.Definition.Matches.trans {first second third : StructUnion.Definition}
    (matched : first.Matches graph S second) (matched' : second.Matches graph S' third) :
    first.Matches graph (Relation.Comp S S') third :=
  ⟨matched.1.trans matched'.1, matched.2.1.trans matched'.2.1, matched.2.2.1.trans matched'.2.2.1,
    matched.2.2.2.trans matched'.2.2.2⟩

theorem Enumeration.Definition.Matches.trans {first second third : Enumeration.Definition}
    (matched : first.Matches second) (matched' : second.Matches third) : first.Matches third := by
  refine ⟨matched.1.trans matched'.1, (forall₂_comp matched.2 matched'.2).imp ?_⟩
  rintro enum1 enum3 ⟨enum2, ⟨name, value⟩, name', value'⟩
  exact ⟨name.trans name', value.trans value'⟩

/-- With nothing ignored the status of definitions is transitive, and so is their match. -/
theorem DefinitionsMatch.trans {α : Type} {M M' M'' : α → α → Prop}
    (trans : ∀ x y z, M x y → M' y z → M'' x z) {first second third : Option α}
    (matched : DefinitionsMatch {} M first second)
    (matched' : DefinitionsMatch {} M' second third) :
    DefinitionsMatch {} M'' first third := by
  cases first <;> cases second <;> cases third
  case some.some.some => exact trans _ _ _ matched matched'
  all_goals simp [DefinitionsMatch] at matched matched' ⊢

theorem SymbolTypesMatch.trans {first second third : Option Id}
    (matched : SymbolTypesMatch {} S first second)
    (matched' : SymbolTypesMatch {} S' second third) :
    SymbolTypesMatch {} (Relation.Comp S S') first third := by
  cases first <;> cases second <;> cases third
  case some.some.some => exact ⟨_, matched, matched'⟩
  all_goals simp [SymbolTypesMatch] at matched matched' ⊢

/-- Three integers of one encoding and bit size, the middle one without padding, whose
paddings differ. Byte sizes are compared between padded integers only. -/
structure Integer.Gap (first second third : Integer) : Prop where
  encodings : first.encoding = second.encoding ∧ second.encoding = third.encoding
  bitsizes : first.bitsize = second.bitsize ∧ second.bitsize = third.bitsize
  padded : ¬ first.Full ∧ ¬ third.Full
  full : second.Full
  bytesizes : first.bytesize ≠ third.bytesize

theorem Node.Matches.trans {first second third : Node} (matched : first.Matches graph {} S second)
    (matched' : second.Matches graph {} S' third)
    (even : ∀ int1 int2 int3, first = .integer int1 → second = .integer int2 →
      third = .integer int3 → ¬ int1.Gap int2 int3) :
    first.Matches graph {} (Relation.Comp S S') third := by
  cases matched with
  | void => cases matched'; exact .void
  | variadic => cases matched'; exact .variadic
  | pointerReference kind child =>
    cases matched' with
    | pointerReference kind' child' => exact .pointerReference (kind.trans kind') ⟨_, child, child'⟩
  | @integer int1 int2 encoding bitsize storage =>
    cases matched' with
    | @integer _ int3 encoding' bitsize' storage' =>
      refine .integer (encoding.trans encoding') (bitsize.trans bitsize') fun padded padded' => ?_
      by_cases full : int2.Full
      · by_contra bytesizes
        exact even int1 int2 int3 rfl rfl rfl
          ⟨⟨encoding, encoding'⟩, ⟨bitsize, bitsize'⟩, ⟨padded, padded'⟩, full, bytesizes⟩
      · exact (storage padded full).trans (storage' full padded')
  | array size child =>
    cases matched' with
    | array size' child' => exact .array (size.trans size') ⟨_, child, child'⟩
  | baseClass inheritance offset child =>
    cases matched' with
    | baseClass inheritance' offset' child' =>
      exact .baseClass (inheritance.trans inheritance') (offset.trans offset') ⟨_, child, child'⟩
  | member offset bitsize child =>
    cases matched' with
    | member offset' bitsize' child' =>
      exact .member (offset.trans offset') (bitsize.trans bitsize') ⟨_, child, child'⟩
  | method kind vtableOffset child =>
    cases matched' with
    | method kind' vtableOffset' child' =>
      exact .method (kind.trans kind') (vtableOffset.trans vtableOffset') ⟨_, child, child'⟩
  | structUnion kind name definitions =>
    cases matched' with
    | structUnion kind' name' definitions' =>
      exact .structUnion (kind.trans kind') (name.trans name')
        (DefinitionsMatch.trans (fun _ _ _ matched => matched.trans) definitions definitions')
  | enumeration name definitions =>
    cases matched' with
    | enumeration name' definitions' =>
      exact .enumeration (name.trans name')
        (DefinitionsMatch.trans (fun _ _ _ matched => matched.trans) definitions definitions')
  | function returned parameters =>
    cases matched' with
    | function returned' parameters' =>
      refine .function ⟨_, returned, returned'⟩ ((forall₂_comp parameters parameters').imp ?_)
      rintro p1 p3 ⟨p2, child, child'⟩
      exact ⟨_, child, child'⟩
  | elfSymbol name version defined type binding visibility crc child =>
    cases matched' with
    | elfSymbol name' version' defined' type' binding' visibility' crc' child' =>
      exact .elfSymbol (name.trans name') (version.trans version') (defined.trans defined')
        (type.trans type') (binding.trans binding') (visibility.trans visibility') (crc.trans crc')
        (child.trans child')
  | symbols related =>
    cases matched' with
    | symbols related' =>
      refine .symbols ((forall₂_comp related related').imp ?_)
      rintro symbol1 symbol3 ⟨symbol2, ⟨key, child⟩, key', child'⟩
      exact ⟨key.trans key', _, child, child'⟩

/-- There is no gap among the integers of the graph. -/
def Graph.NoGaps (graph : Graph) : Prop :=
  ∀ id1 id2 id3 int1 int2 int3, graph.get id1 = .ok (.integer int1) →
    graph.get id2 = .ok (.integer int2) → graph.get id3 = .ok (.integer int3) →
    ¬ int1.Gap int2 int3

theorem Same.trans (noGaps : graph.NoGaps) {x y z : Id} (first : Equal graph {} x y)
    (second : Equal graph {} y z) :
    Same graph {} (Relation.Comp (Equal graph {}) (Equal graph {})) x z := by
  obtain ⟨last1, last2, qualifiers, found1, found2⟩ := first.same.unqualified
  obtain ⟨last2', last3, qualifiers', found2', found3⟩ := second.same.unqualified
  obtain ⟨rfl, rfl⟩ := found2.unique found2'
  by_cases some_ : qualifiers = ∅
  · subst some_
    obtain ⟨resolved1, resolved2, typedefs1, typedefs2, walked1, walked2⟩ :=
      first.same.walks found1 found2
    obtain ⟨resolved2', resolved3, typedefs2', typedefs3, walked2', walked3⟩ :=
      second.same.walks found2 found3
    obtain ⟨rfl, rfl⟩ := walked2.unique walked2'
    have first' := first.resolved found1 found2 walked1 walked2
    have second' := second.resolved found2 found3 walked2 walked3
    by_cases moved : last1 ≠ resolved1 ∨ last3 ≠ resolved3
    · exact .typedefs found1 found3 walked1 walked3 moved ⟨resolved2, first', second'⟩
    · -- the middle node may have typedefs to follow where the outer ones have none
      obtain ⟨rfl, rfl⟩ : last1 = resolved1 ∧ last3 = resolved3 := by simpa [not_or] using moved
      obtain ⟨_, target, _, found1', found⟩ := first'.same.unqualified
      obtain ⟨rfl, rfl⟩ := found1.ends.unique found1'
      have walked := found.resolved walked2.ends
      obtain ⟨type1, type2, got1, got2, matched⟩ :=
        first'.same.matches_of_settled found1.ends found walked1 walked
      obtain ⟨_, type3, got2', got3, matched'⟩ :=
        second'.same.matches_of_settled found found3.ends walked walked3
      cases got2.symm.trans got2'
      refine .nodes found1 found3 walked1 walked3 got1 got3 (matched.trans matched' ?_)
      rintro int1 int2 int3 rfl rfl rfl
      exact noGaps _ _ _ int1 int2 int3 got1 got2 got3
  · exact .qualified found1 found3 some_ ⟨last2, first.same.child_of_qualified found1 found2 some_,
      second.same.child_of_qualified found2 found3 some_⟩

theorem Equal.trans (noGaps : graph.NoGaps) {x y z : Id} (first : Equal graph {} x y)
    (second : Equal graph {} y z) : Equal graph {} x z := by
  refine Equal.coinduct (R := Relation.Comp (Equal graph {}) (Equal graph {})) ?_ ⟨y, first, second⟩
  rintro x z ⟨y, first, second⟩
  exact Same.trans noGaps first second

section Integers

variable {id id1 id2 : Id} {int1 int2 : Integer}

theorem Unqualified.of_integer {int : Integer} (got : graph.get id = .ok (.integer int)) :
    Unqualified graph id id ∅ := by
  refine ⟨1, ?_⟩
  unfold resolveQualifiers
  rw [got]
  rfl

/-- Integers are equal when their encodings and bit sizes are, and their byte sizes
unless one of the two has no padding. -/
theorem equal_integers_iff (got1 : graph.get id1 = .ok (.integer int1))
    (got2 : graph.get id2 = .ok (.integer int2)) :
    Equal graph {} id1 id2 ↔ int1.encoding = int2.encoding ∧ int1.bitsize = int2.bitsize ∧
      (¬ int1.Full → ¬ int2.Full → int1.bytesize = int2.bytesize) := by
  have found1 := Unqualified.of_integer got1
  have found2 := Unqualified.of_integer got2
  have walked1 := Resolved.of_kind got1 nofun
  have walked2 := Resolved.of_kind got2 nofun
  constructor
  · intro equal
    obtain ⟨type1, type2, got1', got2', matched⟩ :=
      equal.same.matches_of_settled found1 found2 walked1 walked2
    cases got1.symm.trans got1'
    cases got2.symm.trans got2'
    cases matched with
    | integer encoding bitsize storage => exact ⟨encoding, bitsize, storage⟩
  · rintro ⟨encoding, bitsize, storage⟩
    exact .of_same (.nodes found1 found2 walked1 walked2 got1 got2
      (.integer encoding bitsize storage))

end Integers

/-- What is equal from one version to the next is equal from the first to the last,
exactly on the graphs without a gap among their integers. -/
theorem equality_transitive_iff (graph : Graph) :
    (∀ a b c, Finds graph {} a b true → Finds graph {} b c true → Finds graph {} a c true) ↔
      graph.NoGaps := by
  simp only [finds_equal_iff]
  constructor
  · intro trans id1 id2 id3 int1 int2 int3 got1 got2 got3 gap
    have first := (equal_integers_iff got1 got2).mpr
      ⟨gap.encodings.1, gap.bitsizes.1, fun _ padded => absurd gap.full padded⟩
    have second := (equal_integers_iff got2 got3).mpr
      ⟨gap.encodings.2, gap.bitsizes.2, fun padded => absurd gap.full padded⟩
    have whole := (equal_integers_iff got1 got3).mp (trans id1 id2 id3 first second)
    exact gap.bytesizes (whole.2.2 gap.padded.1 gap.padded.2)
  · exact fun noGaps a b c => Equal.trans noGaps

/-- Three versions of an integer of 32 bits, stored in 8, 4 and 16 bytes. -/
def threeIntegers : Graph where
  nodes := [
    some (.integer ⟨"int", .signedInteger, 32, 8⟩),
    some (.integer ⟨"int", .signedInteger, 32, 4⟩),
    some (.integer ⟨"int", .signedInteger, 32, 16⟩)]

theorem equality_not_transitive :
    ¬ ∀ a b c, Finds threeIntegers {} a b true → Finds threeIntegers {} b c true →
      Finds threeIntegers {} a c true := by
  intro trans
  have first : Finds threeIntegers {} ⟨0⟩ ⟨1⟩ true := ⟨2, _, _, rfl⟩
  have second : Finds threeIntegers {} ⟨1⟩ ⟨2⟩ true := ⟨2, _, _, rfl⟩
  have whole : Finds threeIntegers {} ⟨0⟩ ⟨2⟩ false := ⟨2, _, _, rfl⟩
  cases whole.unique (trans _ _ _ first second)

end Stg
