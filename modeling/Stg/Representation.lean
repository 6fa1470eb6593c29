import Stg.Follows

set_option autoImplicit false

/- What comparisons see through: the order and the repetition of qualifiers, and typedefs
over types that do not drop qualifiers. -/
namespace Stg

variable {graph graph' : Graph} {options : CompareOptions} {ρ σ : Id → Id → Prop} {fuel : Nat}
  {id id' last last' : Id} {collected qualifiers qualifiers' : Qualifiers}
  {typedefs typedefs' names : List String}

/-- The id has related nodes in the two graphs, or none. -/
structure Graph.Rewritten (graph graph' : Graph) (ρ σ : Id → Id → Prop) (id : Id) : Prop where
  related : ∀ {node}, graph.get id = .ok node → ∃ node', graph'.get id = .ok node' ∧
    node.Related ρ σ node'
  set : graph'.Is id → graph.Is id

theorem Graph.Rewritten.flip (rewritten : graph.Rewritten graph' ρ σ id) :
    graph'.Rewritten graph (Flipped ρ) (Flipped σ) id where
  related {node'} got' := by
    obtain ⟨node, got⟩ := rewritten.set ⟨node', got'⟩
    obtain ⟨_, got'', related⟩ := rewritten.related got
    cases got'.symm.trans got''
    exact ⟨node, got, related.flip⟩
  set := by
    rintro ⟨node, got⟩
    obtain ⟨node', got', _⟩ := rewritten.related got
    exact ⟨node', got'⟩

section Walks

/-- Following qualifiers from related nodes ends at related nodes, as long as those that
are not alike neither lead on nor drop qualifiers. -/
theorem resolveQualifiers_follows
    (each : ∀ id id', ρ id id' → ∀ node, graph.get id = .ok node → ∃ node',
      graph'.get id' = .ok node' ∧ (node.Related ρ σ node' ∨
        ∀ qualifiers, node.resolveQualifier qualifiers = (none, qualifiers) ∧
          node'.resolveQualifier qualifiers = (none, qualifiers)))
    (related : ρ id id')
    (found : resolveQualifiers graph fuel id collected = .ok (last, qualifiers)) :
    ∃ last', resolveQualifiers graph' fuel id' collected = .ok (last', qualifiers) ∧
      ρ last last' := by
  induction fuel generalizing id id' collected with
  | zero => cases found
  | succ fuel ih =>
    obtain ⟨node, got, rest⟩ := bind_eq_ok found
    obtain ⟨node', got', alike⟩ := each id id' related node got
    rw [resolveQualifiers, got']
    rcases alike with alike | plain
    · cases alike with
      | qualified child => exact ih child rest
      | _ =>
        cases rest
        exact ⟨id', rfl, related⟩
    · rw [(plain collected).1] at rest
      cases rest
      refine ⟨id', ?_, related⟩
      dsimp only [bind, Except.bind]
      rw [(plain _).2]
      rfl

theorem resolveTypedefs_follows
    (each : ∀ id id', ρ id id' → ∀ node, graph.get id = .ok node → ∃ node',
      graph'.get id' = .ok node' ∧ (node.Related ρ σ node' ∨
        node.kind = .qualified ∧ node'.kind = .qualified))
    (related : ρ id id') (walked : resolveTypedefs graph fuel id names = .ok (last, typedefs)) :
    ∃ last', resolveTypedefs graph' fuel id' names = .ok (last', typedefs) ∧ ρ last last' := by
  induction fuel generalizing id id' names with
  | zero => cases walked
  | succ fuel ih =>
    obtain ⟨node, got, rest⟩ := bind_eq_ok walked
    obtain ⟨node', got', alike⟩ := each id id' related node got
    rw [resolveTypedefs, got']
    rcases alike with alike | ⟨kind, kind'⟩
    · cases alike with
      | typedef child => exact ih child rest
      | _ =>
        cases rest
        exact ⟨id', rfl, related⟩
    · cases node <;> cases kind
      cases node' <;> cases kind'
      cases rest
      exact ⟨id', rfl, related⟩

end Walks

section Qualifiers

/-- Ids stay as they are, except that the first of the two may become the other. -/
def Redirects (source target id id' : Id) : Prop := id' = id ∨ id = source ∧ id' = target

/-- Directly nested qualified nodes from `id` down to `under`, and their qualifiers. -/
inductive QualifierChain (graph : Graph) (under : Id) : Id → Qualifiers → Prop where
  | last {id : Id} {qualifier : Qualifier} : graph.get id = .ok (.qualified ⟨qualifier, under⟩) →
    QualifierChain graph under id {qualifier}
  | nest {id next : Id} {qualifier : Qualifier} {qualifiers : Qualifiers} :
    graph.get id = .ok (.qualified ⟨qualifier, next⟩) → QualifierChain graph under next qualifiers →
    QualifierChain graph under id (insert qualifier qualifiers)

variable {under chain1 chain2 : Id}

theorem QualifierChain.qualified (chain : QualifierChain graph under id qualifiers) :
    ∃ node, graph.get id = .ok (.qualified node) := by
  cases chain with
  | last got => exact ⟨_, got⟩
  | nest got _ => exact ⟨_, got⟩

/-- A walk from below a chain is the end of a walk along the chain. -/
theorem QualifierChain.resolveQualifiers (chain : QualifierChain graph under id qualifiers)
    {out : Id × Qualifiers}
    (found : resolveQualifiers graph fuel under (qualifiers ∪ collected) = .ok out) :
    ∃ fuel', Stg.resolveQualifiers graph fuel' id collected = .ok out := by
  induction chain generalizing collected with
  | @last id qualifier got =>
    refine ⟨fuel + 1, ?_⟩
    rw [Stg.resolveQualifiers, got]
    rwa [Finset.singleton_union] at found
  | @nest id next qualifier qualifiers got _ ih =>
    have deeper : qualifiers ∪ insert qualifier collected =
        insert qualifier qualifiers ∪ collected := by
      rw [Finset.union_insert, Finset.insert_union]
    obtain ⟨fuel', found'⟩ := ih (deeper ▸ found)
    refine ⟨fuel' + 1, ?_⟩
    rw [Stg.resolveQualifiers, got]
    exact found'

section Chains

variable (chained2 : QualifierChain graph under chain2 qualifiers)
  (rewritten : ∀ id, graph.Rewritten graph' (Redirects chain1 chain2) (Redirects chain1 chain2) id)

include chained2 rewritten

/-- A walk along what has become of the second chain gets below it with its qualifiers.
It may only get there after a number of rounds, if the chain leads through the first. -/
theorem leave_chain {part : Qualifiers} (chain : QualifierChain graph under id part)
    (inside : part ⊆ qualifiers) {out : Id × Qualifiers}
    (found : resolveQualifiers graph' fuel id collected = .ok out) :
    ∃ fuel' under' passed, fuel' < fuel ∧ Redirects chain1 chain2 under under' ∧ part ⊆ passed ∧
      passed ⊆ qualifiers ∧
        resolveQualifiers graph' fuel' under' (passed ∪ collected) = .ok out := by
  induction fuel generalizing id part collected with
  | zero => cases found
  | succ fuel ih =>
    cases chain with
    | @last _ qualifier got =>
      obtain ⟨node', got', alike⟩ := (rewritten id).related got
      rw [resolveQualifiers, got'] at found
      cases alike with
      | @qualified _ _ under' child =>
        refine ⟨fuel, under', {qualifier}, by omega, child, subset_rfl, inside, ?_⟩
        rw [Finset.singleton_union]
        exact found
    | @nest _ next qualifier rest got deeper =>
      obtain ⟨node', got', alike⟩ := (rewritten id).related got
      rw [resolveQualifiers, got'] at found
      obtain ⟨here, below⟩ := Finset.insert_subset_iff.mp inside
      have merge : ∀ passed : Qualifiers,
          passed ∪ insert qualifier collected = insert qualifier passed ∪ collected := by
        intro passed
        rw [Finset.union_insert, Finset.insert_union]
      cases alike with
      | qualified child =>
        rcases child with rfl | ⟨rfl, rfl⟩
        · obtain ⟨fuel', under', passed, less, held, covers, within, found'⟩ :=
            ih deeper below found
          refine ⟨fuel', under', insert qualifier passed, by omega, held, ?_, ?_, ?_⟩
          · exact Finset.insert_subset_insert _ covers
          · exact Finset.insert_subset here within
          · rwa [← merge]
        · obtain ⟨fuel', under', passed, less, held, covers, within, found'⟩ :=
            ih chained2 subset_rfl found
          refine ⟨fuel', under', insert qualifier passed, by omega, held, ?_, ?_, ?_⟩
          · exact Finset.insert_subset_insert _ (below.trans covers)
          · exact Finset.insert_subset here within
          · rwa [← merge]

variable (chained1 : QualifierChain graph under chain1 qualifiers)

include chained1

/-- A walk along qualifiers that ends after the exchange of chains ended before it. -/
theorem resolveQualifiers_unchained (related : Redirects chain1 chain2 id id')
    (found : resolveQualifiers graph' fuel id' collected = .ok (last', qualifiers')) :
    ∃ fuel' last, resolveQualifiers graph fuel' id collected = .ok (last, qualifiers') ∧
      Redirects chain1 chain2 last last' := by
  induction fuel using Nat.strong_induction_on generalizing id id' collected with
  | _ fuel ih =>
    rcases related with rfl | ⟨rfl, rfl⟩
    · cases fuel with
      | zero => cases found
      | succ fuel =>
        obtain ⟨node', got', rest⟩ := bind_eq_ok found
        obtain ⟨node, got⟩ := (rewritten id').set ⟨node', got'⟩
        obtain ⟨_, got'', alike⟩ := (rewritten id').related got
        cases got'.symm.trans got''
        cases alike with
        | qualified child =>
          obtain ⟨fuel', last, found, held⟩ := ih fuel (Nat.lt_succ_self _) child rest
          refine ⟨fuel' + 1, last, ?_, held⟩
          rw [resolveQualifiers, got]
          exact found
        | _ =>
          cases rest
          refine ⟨1, last', ?_, .inl rfl⟩
          rw [resolveQualifiers, got]
          rfl
    · obtain ⟨fuel', under', passed, less, child, covers, within, found⟩ :=
        leave_chain chained2 rewritten chained2 subset_rfl found
      obtain rfl := within.antisymm covers
      obtain ⟨fuel'', last, found, held⟩ := ih fuel' less child found
      obtain ⟨more, found⟩ := chained1.resolveQualifiers found
      exact ⟨more, last, found, held⟩

theorem keysFollow_of_chains :
    KeysFollow graph graph' (Redirects chain1 chain2) (Redirects chain1 chain2) := by
  rintro id id' (rfl | ⟨rfl, rfl⟩) node got
  · obtain ⟨node', got', alike⟩ := (rewritten id').related got
    exact ⟨node', got', .inl alike⟩
  · obtain ⟨node1, got1⟩ := chained1.qualified
    obtain ⟨node2, got2⟩ := chained2.qualified
    obtain ⟨node', got', alike⟩ := (rewritten id').related got2
    cases got.symm.trans got1
    exact ⟨node', got', .inr ⟨rfl, alike.kind⟩⟩

theorem keysFollow_back_of_chains : KeysFollow graph' graph
    (Flipped (Redirects chain1 chain2)) (Flipped (Redirects chain1 chain2)) := by
  rintro id' id (rfl | ⟨rfl, rfl⟩) node' got'
  · obtain ⟨node, got, alike⟩ := (rewritten id').flip.related got'
    exact ⟨node, got, .inl alike⟩
  · obtain ⟨node1, got1⟩ := chained1.qualified
    obtain ⟨node2, got2⟩ := chained2.qualified
    obtain ⟨_, got'', alike⟩ := (rewritten id').related got2
    cases got'.symm.trans got''
    exact ⟨_, got1, .inr ⟨alike.kind, rfl⟩⟩

theorem follows_of_chains :
    Follows graph graph' (Redirects chain1 chain2) (Redirects chain1 chain2) where
  qualifiers related found found' := by
    obtain ⟨fuel', found'⟩ := found'
    obtain ⟨fuel, last, found'', held⟩ :=
      resolveQualifiers_unchained chained2 rewritten chained1 related found'
    obtain ⟨rfl, rfl⟩ := found.unique ⟨fuel, found''⟩
    exact ⟨rfl, held⟩
  typedefs related walked walked' := by
    obtain ⟨fuel, walked⟩ := walked
    obtain ⟨last', walked'', held⟩ := resolveTypedefs_follows
      (keysFollow_of_chains chained2 rewritten chained1) related walked
    obtain ⟨rfl, _⟩ := walked'.unique ⟨fuel, walked''⟩
    exact held
  nodes related settled settled' := by
    obtain ⟨_, got', alike | ⟨kind, _⟩⟩ :=
      keysFollow_of_chains chained2 rewritten chained1 _ _ related _ settled.got
    · cases settled'.got.symm.trans got'
      exact alike
    · exact absurd kind settled.notQualified
  keys := keysFollow_of_chains chained2 rewritten chained1
  strict _ _ held := held

theorem walksEnd_of_chains (ends : ∃ last qualifiers, Unqualified graph' chain2 last qualifiers) :
    WalksEnd graph graph' (Redirects chain1 chain2) where
  qualifiers := by
    obtain ⟨last2, qualifiers2, enough, ends⟩ := ends
    have walk : ∀ fuel id id' collected collected' out, Redirects chain1 chain2 id id' →
        resolveQualifiers graph fuel id collected = .ok out →
        ∃ fuel' out', resolveQualifiers graph' fuel' id' collected' = .ok out' := by
      intro fuel
      induction fuel with
      | zero => exact fun _ _ _ _ _ _ found => by cases found
      | succ fuel ih =>
        rintro id id' collected collected' out (rfl | ⟨rfl, rfl⟩) found
        · obtain ⟨node, got, rest⟩ := bind_eq_ok found
          obtain ⟨node', got', alike⟩ := (rewritten id').related got
          cases alike with
          | @qualified qualifier _ next' child =>
            obtain ⟨fuel', out', found'⟩ := ih _ _ _ (insert qualifier collected') _ child rest
            refine ⟨fuel' + 1, out', ?_⟩
            rw [resolveQualifiers, got']
            exact found'
          | _ =>
            refine ⟨1, ?_⟩
            rw [resolveQualifiers, got']
            exact ⟨_, rfl⟩
        · exact ⟨enough, resolveQualifiers_ends ends collected'⟩
    intro id id' last qualifiers related found
    obtain ⟨fuel, found⟩ := found
    obtain ⟨fuel', ⟨last', qualifiers'⟩, found'⟩ := walk fuel id id' ∅ ∅ _ related found
    exact ⟨last', qualifiers', fuel', found'⟩
  typedefs related walked := by
    obtain ⟨fuel, walked⟩ := walked
    obtain ⟨last', walked', _⟩ := resolveTypedefs_follows
      (keysFollow_of_chains chained2 rewritten chained1) related walked
    exact ⟨last', _, fuel, walked'⟩

theorem walksEnd_back_of_chains : WalksEnd graph' graph (Flipped (Redirects chain1 chain2)) where
  qualifiers related found' := by
    obtain ⟨fuel', found'⟩ := found'
    obtain ⟨fuel, last, found, _⟩ :=
      resolveQualifiers_unchained chained2 rewritten chained1 related found'
    exact ⟨last, _, fuel, found⟩
  typedefs related walked' := by
    obtain ⟨fuel, walked'⟩ := walked'
    obtain ⟨last, walked, _⟩ := resolveTypedefs_follows
      (keysFollow_back_of_chains chained2 rewritten chained1) related walked'
    exact ⟨last, _, fuel, walked⟩

end Chains

end Qualifiers

section Typedefs

/-- Ids stay as they are; none is the new one. -/
def Kept (fresh id id' : Id) : Prop := id' = id ∧ id ≠ fresh

/-- Ids stay as they are, except that the target may become the new typedef over it. -/
def Renames (target fresh id id' : Id) : Prop := Kept fresh id id' ∨ id = target ∧ id' = fresh

/-- The second graph has a new typedef over the target. References to the target may have
become references to the typedef, other than those matching keys are taken through. -/
structure NewTypedef (graph graph' : Graph) (target fresh : Id) : Prop where
  unset : ¬ graph.Is fresh
  typedef : ∃ name, graph'.get fresh = .ok (.typedef ⟨name, target⟩)
  others : ∀ id, id ≠ fresh → graph.Rewritten graph' (Renames target fresh) (Kept fresh) id

variable {target fresh : Id}

namespace NewTypedef

variable (renamed : NewTypedef graph graph' target fresh)

include renamed

theorem kept {node : Node} (got : graph.get id = .ok node) : Kept fresh id id := by
  refine ⟨rfl, ?_⟩
  rintro rfl
  exact renamed.unset ⟨node, got⟩

theorem keysFollow : KeysFollow graph graph' (Renames target fresh) (Kept fresh) := by
  rintro id _ ⟨rfl, other⟩ node got
  obtain ⟨node', got', alike⟩ := (renamed.others _ other).related got
  exact ⟨node', got', .inl alike⟩

theorem keysFollow_back :
    KeysFollow graph' graph (Flipped (Renames target fresh)) (Flipped (Kept fresh)) := by
  rintro _ id ⟨rfl, other⟩ node' got'
  obtain ⟨node, got, alike⟩ := (renamed.others _ other).flip.related got'
  exact ⟨node, got, .inl alike⟩

variable (set : graph.Is target)

include set

theorem target_kept : Kept fresh target target := by
  obtain ⟨node, got⟩ := set
  exact renamed.kept got

/-- A walk along typedefs that ends with the new typedef ended without it. -/
theorem resolveTypedefs_back {names' : List String} (names : List String)
    (related : Renames target fresh id id')
    (walked : resolveTypedefs graph' fuel id' names' = .ok (last', typedefs')) :
    ∃ last typedefs fuel', resolveTypedefs graph fuel' id names = .ok (last, typedefs) ∧
      Renames target fresh last last' := by
  induction fuel generalizing id id' names names' with
  | zero => cases walked
  | succ fuel ih =>
    obtain ⟨node', got', rest⟩ := bind_eq_ok walked
    rcases related with ⟨rfl, other⟩ | ⟨rfl, rfl⟩
    · obtain ⟨node, got⟩ := (renamed.others _ other).set ⟨node', got'⟩
      obtain ⟨_, got'', alike⟩ := (renamed.others _ other).related got
      cases got'.symm.trans got''
      cases alike with
      | @typedef name _ _ child =>
        obtain ⟨last, typedefs, fuel', walked, held⟩ := ih (names ++ [name]) child rest
        refine ⟨last, typedefs, fuel' + 1, ?_, held⟩
        rw [resolveTypedefs, got]
        exact walked
      | _ =>
        cases rest
        refine ⟨last', names, 1, ?_, .inl ⟨rfl, other⟩⟩
        rw [resolveTypedefs, got]
        rfl
    · obtain ⟨name, got''⟩ := renamed.typedef
      cases got'.symm.trans got''
      exact ih names (.inl (renamed.target_kept set)) rest

/-- A walk along typedefs that ended without the new typedef ends with it. -/
theorem resolveTypedefs_ends (names' : List String) (related : Renames target fresh id id')
    (walked : resolveTypedefs graph fuel id names = .ok (last, typedefs)) :
    ∃ fuel' out', resolveTypedefs graph' fuel' id' names' = .ok out' := by
  have walk : ∀ fuel id names names' out, id ≠ fresh →
      resolveTypedefs graph fuel id names = .ok out →
      ∃ fuel' out', resolveTypedefs graph' fuel' id names' = .ok out' := by
    intro fuel
    induction fuel with
    | zero => exact fun _ _ _ _ _ walked => by cases walked
    | succ fuel ih =>
      intro id names names' out other walked
      obtain ⟨node, got, rest⟩ := bind_eq_ok walked
      obtain ⟨node', got', alike⟩ := (renamed.others _ other).related got
      cases alike with
      | @typedef name _ child' child =>
        rcases child with ⟨rfl, other⟩ | ⟨rfl, rfl⟩
        · obtain ⟨fuel', out', walked'⟩ := ih _ _ (names' ++ [name]) _ other rest
          refine ⟨fuel' + 1, out', ?_⟩
          rw [resolveTypedefs, got']
          exact walked'
        · -- the walk passes through the new typedef and goes on as before
          obtain ⟨alias_, got''⟩ := renamed.typedef
          obtain ⟨fuel', out', walked'⟩ := ih _ _ (names' ++ [name] ++ [alias_]) _
            (renamed.target_kept set).2 rest
          refine ⟨fuel' + 2, out', ?_⟩
          rw [resolveTypedefs, got']
          dsimp only [bind, Except.bind, Node.resolveTypedef]
          rw [resolveTypedefs, got'']
          exact walked'
      | _ =>
        refine ⟨1, ?_⟩
        rw [resolveTypedefs, got']
        exact ⟨_, rfl⟩
  rcases related with ⟨rfl, other⟩ | ⟨rfl, rfl⟩
  · exact walk fuel _ _ _ _ other walked
  · obtain ⟨alias_, got''⟩ := renamed.typedef
    obtain ⟨fuel', out', walked'⟩ := walk fuel id names (names' ++ [alias_]) _
      (renamed.target_kept set).2 walked
    refine ⟨fuel' + 1, out', ?_⟩
    rw [resolveTypedefs, got'']
    exact walked'

variable (plain : ∀ node, graph.get target = .ok node → ∀ qualifiers,
  node.resolveQualifier qualifiers = (none, qualifiers))

include plain

/-- Neither the target nor the typedef over it leads on to qualifiers or drops them. -/
theorem resolveQualifiers_follow (related : Renames target fresh id id')
    (found : resolveQualifiers graph fuel id collected = .ok (last, qualifiers)) :
    ∃ last', resolveQualifiers graph' fuel id' collected = .ok (last', qualifiers) ∧
      Renames target fresh last last' := by
  refine resolveQualifiers_follows (ρ := Renames target fresh) (σ := Kept fresh) ?_ related found
  rintro id id' (⟨rfl, other⟩ | ⟨rfl, rfl⟩) node got
  · obtain ⟨node', got', alike⟩ := (renamed.others _ other).related got
    exact ⟨node', got', .inl alike⟩
  · obtain ⟨name, got'⟩ := renamed.typedef
    exact ⟨_, got', .inr fun qualifiers => ⟨plain node got qualifiers, rfl⟩⟩

theorem resolveQualifiers_back (related : Renames target fresh id id')
    (found : resolveQualifiers graph' fuel id' collected = .ok (last', qualifiers)) :
    ∃ last, resolveQualifiers graph fuel id collected = .ok (last, qualifiers) ∧
      Renames target fresh last last' := by
  refine resolveQualifiers_follows (ρ := Flipped (Renames target fresh))
    (σ := Flipped (Kept fresh)) ?_ related found
  rintro id' id (⟨rfl, other⟩ | ⟨rfl, rfl⟩) node' got'
  · obtain ⟨node, got, alike⟩ := (renamed.others _ other).flip.related got'
    exact ⟨node, got, .inl alike⟩
  · obtain ⟨name, got''⟩ := renamed.typedef
    obtain ⟨node, got⟩ := set
    cases got'.symm.trans got''
    exact ⟨node, got, .inr fun qualifiers => ⟨rfl, plain node got qualifiers⟩⟩

theorem follows : Follows graph graph' (Renames target fresh) (Kept fresh) where
  qualifiers related found found' := by
    obtain ⟨fuel, found⟩ := found
    obtain ⟨last', found'', held⟩ := renamed.resolveQualifiers_follow set plain related found
    obtain ⟨rfl, rfl⟩ := found'.unique ⟨fuel, found''⟩
    exact ⟨rfl, held⟩
  typedefs related walked walked' := by
    obtain ⟨fuel', walked'⟩ := walked'
    obtain ⟨last, typedefs, fuel, walked'', held⟩ :=
      renamed.resolveTypedefs_back set [] related walked'
    obtain ⟨rfl, _⟩ := walked.unique ⟨fuel, walked''⟩
    exact held
  nodes related settled settled' := by
    rcases related with ⟨rfl, other⟩ | ⟨rfl, rfl⟩
    · obtain ⟨_, got', alike⟩ := (renamed.others _ other).related settled.got
      cases settled'.got.symm.trans got'
      exact alike
    · obtain ⟨name, got'⟩ := renamed.typedef
      cases settled'.got.symm.trans got'
      exact absurd rfl settled'.notTypedef
  keys := renamed.keysFollow
  strict _ _ held := .inl held

theorem walksEnd : WalksEnd graph graph' (Renames target fresh) where
  qualifiers related found := by
    obtain ⟨fuel, found⟩ := found
    obtain ⟨last', found', _⟩ := renamed.resolveQualifiers_follow set plain related found
    exact ⟨last', _, fuel, found'⟩
  typedefs related walked := by
    obtain ⟨fuel, walked⟩ := walked
    obtain ⟨fuel', ⟨last', typedefs'⟩, walked'⟩ :=
      renamed.resolveTypedefs_ends set [] related walked
    exact ⟨last', typedefs', fuel', walked'⟩

theorem walksEnd_back : WalksEnd graph' graph (Flipped (Renames target fresh)) where
  qualifiers related found' := by
    obtain ⟨fuel, found'⟩ := found'
    obtain ⟨last, found, _⟩ := renamed.resolveQualifiers_back set plain related found'
    exact ⟨last, _, fuel, found⟩
  typedefs related walked' := by
    obtain ⟨fuel', walked'⟩ := walked'
    obtain ⟨last, typedefs, fuel, walked, _⟩ :=
      renamed.resolveTypedefs_back set [] related walked'
    exact ⟨last, typedefs, fuel, walked⟩

end NewTypedef

/-- What has typedefs that end at such a node neither leads on to qualifiers nor drops them. -/
theorem plain_of_resolved {node : Node} (walked : Resolved graph target last typedefs)
    (got : graph.get last = .ok node)
    (plain : node.kind ≠ .qualified ∧ node.kind ≠ .array ∧ node.kind ≠ .function) :
    ∀ node, graph.get target = .ok node → ∀ qualifiers,
      node.resolveQualifier qualifiers = (none, qualifiers) := by
  intro first gotFirst qualifiers
  obtain ⟨fuel, walked⟩ := walked
  cases fuel with
  | zero => cases walked
  | succ fuel =>
    obtain ⟨_, gotFirst', rest⟩ := bind_eq_ok walked
    cases gotFirst.symm.trans gotFirst'
    cases first with
    | qualified =>
      cases rest
      cases got.symm.trans gotFirst
      exact absurd rfl plain.1
    | array =>
      cases rest
      cases got.symm.trans gotFirst
      exact absurd rfl plain.2.1
    | function =>
      cases rest
      cases got.symm.trans gotFirst
      exact absurd rfl plain.2.2
    | _ => rfl

theorem set_of_resolved (walked : Resolved graph target last typedefs) : graph.Is target := by
  obtain ⟨fuel, walked⟩ := walked
  cases fuel with
  | zero => cases walked
  | succ fuel =>
    obtain ⟨node, got, _⟩ := bind_eq_ok walked
    exact ⟨node, got⟩

end Typedefs

/-- Comparisons see through the representation of qualifiers and typedefs. Chains with the
same qualifiers over the same node can be exchanged, wherever they are referred to; only if the
second chain leads through the first can this close a ring, and then what returns finds the same.
And a reference to a node can be redirected to a new typedef over the node. -/
theorem representation_choices (graph graph' : Graph) (options : CompareOptions) :
    (∀ chain1 chain2 under qualifiers, QualifierChain graph under chain1 qualifiers →
      QualifierChain graph under chain2 qualifiers →
      (∀ id, graph.Rewritten graph' (Redirects chain1 chain2) (Redirects chain1 chain2) id) →
      ∀ node1 node2 node1' node2', Redirects chain1 chain2 node1 node1' →
        Redirects chain1 chain2 node2 node2' →
        (∀ verdict verdict', Finds graph options node1 node2 verdict →
          Finds graph' options node1' node2' verdict' → verdict' = verdict) ∧
        ((∃ last qualifiers, Unqualified graph' chain2 last qualifiers) → ∀ verdict,
          Finds graph options node1 node2 verdict ↔ Finds graph' options node1' node2' verdict)) ∧
    (∀ target fresh last typedefs node, NewTypedef graph graph' target fresh →
      Resolved graph target last typedefs → graph.get last = .ok node →
      node.kind ≠ .qualified ∧ node.kind ≠ .array ∧ node.kind ≠ .function →
      ∀ node1 node2 node1' node2', Renames target fresh node1 node1' →
        Renames target fresh node2 node2' → ∀ verdict,
          Finds graph options node1 node2 verdict ↔
            Finds graph' options node1' node2' verdict) := by
  refine ⟨?_, ?_⟩
  · intro chain1 chain2 under qualifiers chained1 chained2 rewritten node1 node2 node1' node2'
      related1 related2
    have follows := follows_of_chains chained2 rewritten chained1
    have follows' := follows.flip (keysFollow_back_of_chains chained2 rewritten chained1)
    refine ⟨fun verdict verdict' found found' => ?_, fun ends verdict => ?_⟩
    · exact follows.finds_same follows' related1 related2 found found'
    · exact follows.finds follows' (walksEnd_of_chains chained2 rewritten chained1 ends)
        (walksEnd_back_of_chains chained2 rewritten chained1) related1 related2
  · intro target fresh last typedefs node renamed walked got plain node1 node2 node1' node2'
      related1 related2 verdict
    have set := set_of_resolved walked
    have plain := plain_of_resolved walked got plain
    have follows := renamed.follows set plain
    exact follows.finds (follows.flip renamed.keysFollow_back) (renamed.walksEnd set plain)
      (renamed.walksEnd_back set plain) related1 related2

/-- An integer, two chains of the same qualifiers over it in different orders, a pointer that
refers to `pointee`, another that refers to the second chain, and what is at the end. -/
def twoPointers (pointee : Id) (more : List (Option Node)) : Graph where
  nodes := [some (.integer ⟨"int", .signedInteger, 32, 4⟩), some (.qualified ⟨.const, ⟨0⟩⟩),
    some (.qualified ⟨.volatile, ⟨1⟩⟩), some (.qualified ⟨.volatile, ⟨0⟩⟩),
    some (.qualified ⟨.const, ⟨3⟩⟩), some (.pointerReference ⟨.pointer, pointee⟩),
    some (.pointerReference ⟨.pointer, ⟨4⟩⟩)] ++ more

theorem twoPointers_rewritten {pointee pointee' : Id} {more more' : List (Option Node)}
    (steady : ∀ id, id ∈ [(⟨0⟩ : Id), ⟨1⟩, ⟨3⟩, ⟨4⟩] → ρ id id) (redirected : ρ pointee pointee')
    (inside : id.ix < 7) :
    (twoPointers pointee more).Rewritten (twoPointers pointee' more') ρ σ id := by
  obtain ⟨ix⟩ := id
  have related : ∃ node node', (twoPointers pointee more).get ⟨ix⟩ = .ok node ∧
      (twoPointers pointee' more').get ⟨ix⟩ = .ok node' ∧ node.Related ρ σ node' := by
    match ix, inside with
    | 0, _ => exact ⟨_, _, rfl, rfl, .integer⟩
    | 1, _ => exact ⟨_, _, rfl, rfl, .qualified (steady _ (by simp))⟩
    | 2, _ => exact ⟨_, _, rfl, rfl, .qualified (steady _ (by simp))⟩
    | 3, _ => exact ⟨_, _, rfl, rfl, .qualified (steady _ (by simp))⟩
    | 4, _ => exact ⟨_, _, rfl, rfl, .qualified (steady _ (by simp))⟩
    | 5, _ => exact ⟨_, _, rfl, rfl, .pointerReference redirected⟩
    | 6, _ => exact ⟨_, _, rfl, rfl, .pointerReference (steady _ (by simp))⟩
  obtain ⟨node, node', got, got', related⟩ := related
  refine ⟨fun got'' => ?_, fun _ => ⟨node, got⟩⟩
  cases got.symm.trans got''
  exact ⟨node', got', related⟩

theorem twoPointers_unset {pointee pointee' : Id} {more more' : List (Option Node)}
    (beyond : 7 + more.length ≤ id.ix) (beyond' : 7 + more'.length ≤ id.ix) :
    (twoPointers pointee more).Rewritten (twoPointers pointee' more') ρ σ id := by
  have unset : ∀ pointee more, 7 + more.length ≤ id.ix →
      (twoPointers pointee more).get id = .error .undefined := by
    intro pointee more beyond
    have outside : (twoPointers pointee more).nodes[id.ix]? = none := by
      apply List.getElem?_eq_none
      simp only [twoPointers, List.length_append, List.length_cons, List.length_nil]
      omega
    simp only [Graph.get, outside]
  constructor
  · intro node got
    rw [unset _ _ beyond] at got
    cases got
  · rintro ⟨_, got⟩
    rw [unset _ _ beyond'] at got
    cases got

theorem twoPointers_chained (pointee : Id) (more : List (Option Node)) :
    QualifierChain (twoPointers pointee more) ⟨0⟩ ⟨2⟩ {.const, .volatile} ∧
      QualifierChain (twoPointers pointee more) ⟨0⟩ ⟨4⟩ {.const, .volatile} := by
  refine ⟨?_, .nest rfl (.last rfl)⟩
  rw [Finset.pair_comm]
  exact .nest rfl (.last rfl)

def word : Typedef where
  name := "word"
  referredTypeId := ⟨0⟩

theorem representation_choices_pointers :
    (∀ verdict, Finds (twoPointers ⟨2⟩ []) {} ⟨5⟩ ⟨6⟩ verdict ↔
      Finds (twoPointers ⟨4⟩ []) {} ⟨5⟩ ⟨6⟩ verdict) ∧
    ∀ verdict, Finds (twoPointers ⟨0⟩ []) {} ⟨5⟩ ⟨6⟩ verdict ↔
      Finds (twoPointers ⟨7⟩ [some (.typedef word)]) {} ⟨5⟩ ⟨6⟩ verdict := by
  refine ⟨?_, ?_⟩
  · have chained := twoPointers_chained ⟨2⟩ []
    refine ((representation_choices (twoPointers ⟨2⟩ []) (twoPointers ⟨4⟩ []) {}).1 _ _ _ _
      chained.1 chained.2 (fun id => ?_) _ _ _ _ (.inl rfl) (.inl rfl)).2 ⟨_, _, 3, rfl⟩
    by_cases inside : id.ix < 7
    · exact twoPointers_rewritten (fun _ _ => .inl rfl) (.inr ⟨rfl, rfl⟩) inside
    · exact twoPointers_unset (by simpa using inside) (by simpa using inside)
  · refine (representation_choices (twoPointers ⟨0⟩ []) _ {}).2 ⟨0⟩ ⟨7⟩ ⟨0⟩ [] _ ⟨?_, ⟨_, rfl⟩, ?_⟩
      ⟨1, rfl⟩ rfl (by decide) _ _ _ _ (.inl ⟨rfl, by decide⟩) (.inl ⟨rfl, by decide⟩)
    · rintro ⟨_, got⟩
      cases got
    · intro id other
      by_cases inside : id.ix < 7
      · refine twoPointers_rewritten (fun id present => .inl ⟨rfl, ?_⟩) (.inr ⟨rfl, rfl⟩) inside
        rintro rfl
        simp at present
      · have other : id.ix ≠ 7 := fun same => other (by cases id; cases same; rfl)
        exact twoPointers_unset (by simpa using inside)
          (by simp only [List.length_singleton]; omega)

end Stg
