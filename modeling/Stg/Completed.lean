import Stg.Plain
import Stg.Lib.Cycle

set_option autoImplicit false

/- What a plain report has done if it is completed: it has described every difference that can
be reached, and named all that the descriptions are made of. -/
namespace Stg

open Relation (ReflTransGen TransGen)

variable {graph : Graph} {fuel : Nat} {names names' names'' : NameCache} {id : Id}

section Caches

/-- What the name of the node is made of has a name, and the walks from the node end. -/
structure Graph.Done (graph : Graph) (names : NameCache) (id : Id) : Prop where
  ends : graph.NamingEnds id
  under : ∀ node fuel out, graph.get id = .ok (.qualified node) →
    resolveQualifiers graph fuel id ∅ = .ok out → out.1 ∈ names
  parts : ∀ node, graph.get id = .ok node → node.kind ≠ .qualified → ∀ part ∈ node.parts, part ∈ names

theorem Graph.Done.mono (done : graph.Done names id) (keeps : ∀ id ∈ names, id ∈ names') :
    graph.Done names' id where
  ends := done.ends
  under node fuel out got found := keeps _ (done.under node fuel out got found)
  parts node got plain part among := keeps _ (done.parts node got plain part among)

/-- If the node qualifies one that had a name, that name can be qualified. -/
def Graph.Qualified (graph : Graph) (names : NameCache) (id : Id) : Prop :=
  ∀ node fuel out name, graph.get id = .ok (.qualified node) →
    resolveQualifiers graph fuel id ∅ = .ok out → names.lookup out.1 = some name →
    ∃ qualified, name.qualify out.2 = .ok qualified

/-- No name is changed, and the nodes that have got one are done. -/
structure Graph.Grows (graph : Graph) (names names' : NameCache) : Prop where
  fixed : names.Keeps names'
  done : ∀ id ∈ names', id ∈ names ∨ graph.Done names' id ∧ graph.Qualified names id

theorem Graph.Grows.keeps (grows : graph.Grows names names') : ∀ id ∈ names, id ∈ names' :=
  fun _ among => grows.fixed.mem among

theorem Graph.Grows.refl : graph.Grows names names := ⟨.refl names, fun _ => .inl⟩

theorem Graph.Grows.trans (first : graph.Grows names names') (second : graph.Grows names' names'') :
    graph.Grows names names'' where
  fixed := first.fixed.trans second.fixed
  done id among := by
    rcases second.done id among with early | ⟨done, qualified⟩
    · exact (first.done id early).imp_right (And.imp_left fun done => done.mono second.keeps)
    · refine .inr ⟨done, fun node fuel out name got found held => ?_⟩
      exact qualified node fuel out name got found (first.fixed _ name held)

end Caches

section Calls

variable {α β : Type}

/-- If the call returns, the cache has grown and the nodes are named. -/
def Grown (graph : Graph) (call : NameM α) (ids : List Id) : Prop :=
  ∀ names value names', call.run names = .ok (value, names') →
    graph.Grows names names' ∧ ∀ id ∈ ids, id ∈ names'

theorem Grown.pure (value : α) : Grown graph (Pure.pure value) [] := by
  intro names value' names' ran
  cases ran
  exact ⟨.refl, nofun⟩

theorem Grown.ofExcept (call : Except Error α) : Grown graph (Stg.ofExcept call) [] := by
  intro names value names' ran
  cases call with
  | error => cases ran
  | ok => exact Grown.pure _ names value names' ran

theorem Grown.bind {call : NameM α} {rest : α → NameM β} {ids ids' : List Id}
    (first : Grown graph call ids) (second : ∀ value, Grown graph (rest value) ids') :
    Grown graph (call >>= rest) (ids ++ ids') := by
  intro names value names' ran
  obtain ⟨⟨middle, names₁⟩, called, rested⟩ := bind_eq_ok ran
  obtain ⟨grows, named⟩ := first names middle names₁ called
  obtain ⟨grows', named'⟩ := second middle names₁ value names' rested
  refine ⟨grows.trans grows', fun id among => ?_⟩
  rcases List.mem_append.mp among with early | late
  · exact grows'.keeps id (named id early)
  · exact named' id late

theorem Grown.imp {call : NameM α} {ids ids' : List Id} (grown : Grown graph call ids)
    (fewer : ids' ⊆ ids) : Grown graph call ids' := by
  intro names value names' ran
  obtain ⟨grows, named⟩ := grown names value names' ran
  exact ⟨grows, fun id among => named id (fewer among)⟩

variable {describe : Id → NameM Name} (describes : ∀ id, Grown graph (describe id) [id])

include describes

end Calls

section Descriptions

section Chains

variable {first : NameCache} {head part last : Id}

/-- A name that cannot be qualified. -/
def stiff : Name := { left := "", precedence := .atomic }

/-- The cache in which the node has such a name. -/
def stiffened (last : Id) : NameCache := (∅ : NameCache).insert last stiff

theorem Graph.Misqualifies.sound (misqualifies : graph.Misqualifies id last) :
    NameCache.Sound graph (stiffened last) := by
  obtain ⟨_, _, _, target, _, _, got, refused⟩ := misqualifies
  have none_ : NameCache.Sound graph ∅ := nofun
  refine none_.insert fun node got' takes => ?_
  cases got.symm.trans got'
  exact refused.elim (fun isMember => absurd isMember takes.2.2.2.1)
    fun isSymbol => absurd isSymbol takes.2.2.2.2

end Chains

end Descriptions

section Comparisons

variable {c : Comparison}

/-- The nodes that a comparison is described by, past their typedefs where there are two. -/
inductive Graph.DescribedBy (graph : Graph) : Comparison → Id → Prop where
  | removed {id1 : Id} : graph.DescribedBy (some id1, none) id1
  | added {id2 : Id} : graph.DescribedBy (none, some id2) id2
  | first {id1 id2 : Id} {fuel : Nat} {out : Id × List String} :
    resolveTypedefs graph fuel id1 [] = .ok out → graph.DescribedBy (some id1, some id2) out.1
  | second {id1 id2 : Id} {fuel : Nat} {out : Id × List String} :
    resolveTypedefs graph fuel id2 [] = .ok out → graph.DescribedBy (some id1, some id2) out.1

end Comparisons

section Printed

variable {outcomes : Outcomes} {seen seen' seen'' : Seen} {c d root : Comparison} {indent : Nat}

/-- The comparison has been described, and so has all below it, up to those comparisons that
hold changes and have been seen. -/
inductive Outcomes.Covered (outcomes : Outcomes) (graph : Graph) (seen : Seen) (names : NameCache) :
    Comparison → Prop where
  | oneSided {c : Comparison} (named : ∀ id, graph.DescribedBy c id → id ∈ names) (sided : OneSided c) :
    outcomes.Covered graph seen names c
  | held {c : Comparison} (named : ∀ id, graph.DescribedBy c id → id ∈ names)
    (holds : outcomes.Holder c) (entered : seen.lookup c ≠ none) : outcomes.Covered graph seen names c
  | passed {c : Comparison} (named : ∀ id, graph.DescribedBy c id → id ∈ names)
    (below : ∀ d, outcomes.Edge c d → outcomes.Covered graph seen names d) :
    outcomes.Covered graph seen names c

theorem Outcomes.Covered.mono (covered : outcomes.Covered graph seen names c)
    (kept : ∀ d, seen.lookup d ≠ none → seen'.lookup d ≠ none) (keeps : ∀ id ∈ names, id ∈ names') :
    outcomes.Covered graph seen' names' c := by
  induction covered with
  | oneSided named sided => exact .oneSided (fun id by_ => keeps id (named id by_)) sided
  | held named holds entered =>
    exact .held (fun id by_ => keeps id (named id by_)) holds (kept _ entered)
  | passed named _ ih => exact .passed (fun id by_ => keeps id (named id by_)) ih

theorem Outcomes.Covered.named (covered : outcomes.Covered graph seen names c) :
    ∀ id, graph.DescribedBy c id → id ∈ names := by
  cases covered with
  | oneSided named => exact named
  | held named => exact named
  | passed named => exact named

/-- What printing does to the comparisons that have been seen, and to the cache. -/
structure Outcomes.Proceeds (outcomes : Outcomes) (graph : Graph) (seen : Seen) (names : NameCache)
    (seen' : Seen) (names' : NameCache) : Prop where
  grows : graph.Grows names names'
  kept : ∀ d, seen.lookup d ≠ none → seen'.lookup d ≠ none
  started : ∀ d, seen'.lookup d = some false → seen.lookup d = some false
  finished : ∀ d, seen'.lookup d = some true →
    seen.lookup d = some true ∨ ∀ e, outcomes.Edge d e → outcomes.Covered graph seen' names' e

theorem Outcomes.Proceeds.trans (first : outcomes.Proceeds graph seen names seen' names')
    (second : outcomes.Proceeds graph seen' names' seen'' names'') :
    outcomes.Proceeds graph seen names seen'' names'' where
  grows := first.grows.trans second.grows
  kept d entered := second.kept d (first.kept d entered)
  started d open_ := first.started d (second.started d open_)
  finished d closed := by
    rcases second.finished d closed with early | covered
    · exact (first.finished d early).imp_right fun covered e edge =>
        (covered e edge).mono second.kept second.grows.keeps
    · exact .inr covered

/-- A comparison that holds changes is started before its details and finished after them. -/
theorem Outcomes.Proceeds.expanded
    (details : outcomes.Proceeds graph (seen.insert c false) names seen' names')
    (covered : ∀ e, outcomes.Edge c e → outcomes.Covered graph seen' names' e) :
    outcomes.Proceeds graph seen names (seen'.insert c true) names' := by
  have inserted : ∀ d, seen'.lookup d ≠ none → (seen'.insert c true).lookup d ≠ none := by
    intro d entered
    by_cases same : d = c
    · simp [same]
    · rwa [AList.lookup_insert_ne same]
  refine ⟨details.grows, fun d entered => inserted d (details.kept d ?_), fun d open_ => ?_,
    fun d closed => ?_⟩
  · by_cases same : d = c
    · simp [same]
    · rwa [AList.lookup_insert_ne same]
  · by_cases same : d = c
    · rw [same, AList.lookup_insert] at open_
      cases open_
    · rw [AList.lookup_insert_ne same] at open_
      have early := details.started d open_
      rwa [AList.lookup_insert_ne same] at early
  · by_cases same : d = c
    · exact .inr fun e edge => (covered e (same ▸ edge)).mono inserted fun _ => id
    · rw [AList.lookup_insert_ne same] at closed
      rcases details.finished d closed with early | covered
      · rw [AList.lookup_insert_ne same] at early
        exact .inl early
      · exact .inr fun e edge => (covered e edge).mono inserted fun _ => id

/-- Below what is covered no cycle is without a comparison that holds changes. -/
theorem Outcomes.Covered.acc (covered : outcomes.Covered graph seen names c)
    (single : ∀ a b, OneSided a → ¬ outcomes.Edge a b) (passes : ¬ outcomes.Holder c) :
    Acc (fun b a => outcomes.Through a b) c := by
  induction covered with
  | oneSided _ sided => exact .intro _ fun d through => absurd through.1.1 (single _ d sided)
  | held _ holds => exact absurd holds passes
  | passed _ _ ih => exact .intro _ fun d through => ih d through.1.1 through.1.2

end Printed

end Stg
