import Stg.Lib.Reach
import Mathlib.Data.List.Basic

set_option autoImplicit false

/- Depth-first traversals of a directed graph whose nodes have details, some of which are
edges. Some nodes are opened at their first visit only, all others at every visit. -/
namespace Traversal

open Relation (ReflTransGen TransGen)

structure Scheme (ν δ : Type) where
  details : ν → List δ
  edge : δ → Option ν
  once : ν → Bool

/-- What a traversal did: the details it passed and, below those that are edges, what it
did at the node they lead to. -/
inductive Forest (ν δ β : Type) where
  | nil
  | leaf (detail : δ) (rest : Forest ν δ β)
  | visit (detail : δ) (node : ν) (label : β) (nested rest : Forest ν δ β)

/-- A visit, with the nodes that were open then and those that were visited before. -/
structure Call (ν β : Type) where
  path : List ν
  before : List ν
  node : ν
  label : β

variable {ν δ β : Type}

namespace Forest

/-- The nodes in the order of the visits. -/
def visits : Forest ν δ β → List ν
  | nil => []
  | leaf _ rest => rest.visits
  | visit _ node _ nested rest => node :: nested.visits ++ rest.visits

def calls (path before : List ν) : Forest ν δ β → List (Call ν β)
  | nil => []
  | leaf _ rest => rest.calls path before
  | visit _ node label nested rest =>
    ⟨path, before, node, label⟩ :: nested.calls (node :: path) (before ++ [node]) ++
      rest.calls path (before ++ node :: nested.visits)

variable {forest : Forest ν δ β} {path before : List ν}

end Forest

namespace Scheme

variable (scheme : Scheme ν δ)

def targets (details : List δ) : List ν := details.filterMap scheme.edge

def Edge (p q : ν) : Prop := q ∈ scheme.targets (scheme.details p)

/-- An edge between two nodes that are opened at every visit. -/
def Again (p q : ν) : Prop := scheme.Edge p q ∧ scheme.once p = false ∧ scheme.once q = false

variable [DecidableEq ν]

/-- The details that are passed at a visit after some others. -/
def opened (before : List ν) (p : ν) : List δ :=
  if scheme.once p = true ∧ p ∈ before then [] else scheme.details p

/-- The forest is a traversal of the details, with the labels that the visits may have
after the nodes on the path and those before. -/
inductive Walks (labels : List ν → List ν → ν → β → Prop) :
    List ν → List ν → List δ → Forest ν δ β → Prop where
  | nil {path before : List ν} : Walks labels path before [] .nil
  | leaf {path before : List ν} {detail : δ} {details : List δ} {rest : Forest ν δ β} :
    scheme.edge detail = none → Walks labels path before details rest →
    Walks labels path before (detail :: details) (.leaf detail rest)
  | visit {path before : List ν} {detail : δ} {details : List δ} {p : ν} {label : β}
      {nested rest : Forest ν δ β} :
    scheme.edge detail = some p → labels path before p label →
    Walks labels (p :: path) (before ++ [p]) (scheme.opened before p) nested →
    Walks labels path (before ++ p :: nested.visits) details rest →
    Walks labels path before (detail :: details) (.visit detail p label nested rest)

variable {scheme} {labels : List ν → List ν → ν → β → Prop} {path before : List ν}
  {details : List δ} {forest : Forest ν δ β} {p q : ν}

theorem opened_of_repeated (once : scheme.once p = true) (repeated : p ∈ before) :
    scheme.opened before p = [] := if_pos ⟨once, repeated⟩

theorem opened_of_fresh (fresh : scheme.once p = true → p ∉ before) :
    scheme.opened before p = scheme.details p := if_neg fun both => fresh both.1 both.2

namespace Walks

theorem labelled (walks : scheme.Walks labels path before details forest) :
    ∀ call ∈ forest.calls path before, labels call.path call.before call.node call.label := by
  induction walks with
  | nil => nofun
  | leaf _ _ ih => exact ih
  | visit _ labelled _ _ ihNested ihRest =>
    intro call among
    rw [Forest.calls, List.cons_append, List.mem_cons, List.mem_append] at among
    rcases among with rfl | inside | after
    · exact labelled
    · exact ihNested call inside
    · exact ihRest call after

theorem targets_subset (walks : scheme.Walks labels path before details forest) :
    ∀ q ∈ scheme.targets details, q ∈ forest.visits := by
  induction walks with
  | nil => nofun
  | leaf unlinked _ ih =>
    intro q among
    rw [targets, List.filterMap_cons_none unlinked] at among
    exact ih q among
  | visit linked _ _ _ _ ihRest =>
    intro q among
    rw [targets, List.filterMap_cons_some linked, List.mem_cons] at among
    rcases among with rfl | among
    · simp [Forest.visits]
    · simp [Forest.visits, ihRest q among]

/-- Whatever is visited leads on to visited nodes, unless it had been opened before. -/
theorem closed (walks : scheme.Walks labels path before details forest) :
    ∀ p ∈ forest.visits, (scheme.once p = true ∧ p ∈ before) ∨
      ∀ q, scheme.Edge p q → q ∈ forest.visits := by
  induction walks with
  | nil => nofun
  | leaf _ _ ih => exact ih
  | @visit path before detail details p label nested rest _ _ inside _ ihNested ihRest =>
    have own : (scheme.once p = true ∧ p ∈ before) ∨ ∀ q, scheme.Edge p q → q ∈ nested.visits := by
      by_cases repeated : scheme.once p = true ∧ p ∈ before
      · exact .inl repeated
      · right
        intro q edge
        rw [opened, if_neg repeated] at inside
        exact inside.targets_subset q edge
    have wider : ∀ q ∈ nested.visits, q ∈ (Forest.visit detail p label nested rest).visits := by
      intro q among
      simp [Forest.visits, among]
    have atNode : (scheme.once p = true ∧ p ∈ before) ∨
        ∀ q, scheme.Edge p q → q ∈ (Forest.visit detail p label nested rest).visits :=
      own.imp_right fun covers q edge => wider q (covers q edge)
    have below : ∀ q ∈ nested.visits, (scheme.once q = true ∧ q ∈ before) ∨
        ∀ r, scheme.Edge q r → r ∈ (Forest.visit detail p label nested rest).visits := by
      intro q among
      rcases ihNested q among with ⟨once, repeated⟩ | covers
      · rcases List.mem_append.mp repeated with repeated | same
        · exact .inl ⟨once, repeated⟩
        · rw [List.mem_singleton.mp same]
          exact atNode
      · exact .inr fun r edge => wider r (covers r edge)
    intro q among
    simp only [Forest.visits, List.cons_append, List.mem_cons, List.mem_append] at among
    rcases among with rfl | among | among
    · exact atNode
    · exact below q among
    · rcases ihRest q among with ⟨once, repeated⟩ | covers
      · rcases List.mem_append.mp repeated with repeated | repeated
        · exact .inl ⟨once, repeated⟩
        · rcases List.mem_cons.mp repeated with rfl | repeated
          · exact atNode
          · exact below q repeated
      · right
        intro r edge
        simp [Forest.visits, covers r edge]

/-- From whatever is visited only finite walks lead on that avoid the nodes opened once. -/
theorem ends (walks : scheme.Walks labels path before details forest) :
    ∀ p ∈ forest.visits, scheme.once p = false → Acc (fun q p => scheme.Again p q) p := by
  induction walks with
  | nil => nofun
  | leaf _ _ ih => exact ih
  | visit _ _ inside _ ihNested ihRest =>
    intro q among passed
    simp only [Forest.visits, List.cons_append, List.mem_cons, List.mem_append] at among
    rcases among with rfl | among | among
    · refine Acc.intro q fun r again => ihNested r ?_ again.2.2
      rw [opened_of_fresh fun once => by simp [passed] at once] at inside
      exact inside.targets_subset r again.1
    · exact ihNested q among passed
    · exact ihRest q among passed

/-- Whatever is visited can be reached. -/
theorem reaches (walks : scheme.Walks labels path before details forest) :
    ∀ p ∈ forest.visits, ∃ q ∈ scheme.targets details, ReflTransGen scheme.Edge q p := by
  induction walks with
  | nil => nofun
  | leaf unlinked _ ih =>
    intro p among
    rw [targets, List.filterMap_cons_none unlinked]
    exact ih p among
  | @visit _ before _ _ p _ _ _ linked _ _ _ ihNested ihRest =>
    intro q among
    rw [targets, List.filterMap_cons_some linked]
    simp only [Forest.visits, List.cons_append, List.mem_cons, List.mem_append] at among
    rcases among with rfl | among | among
    · exact ⟨q, by simp, .refl⟩
    · obtain ⟨r, target, path⟩ := ihNested q among
      refine ⟨p, by simp, .head ?_ path⟩
      rw [opened] at target
      split at target
      · cases target
      · exact target
    · obtain ⟨r, target, path⟩ := ihRest q among
      exact ⟨r, List.mem_cons_of_mem _ target, path⟩

/-- A traversal from the start visits exactly what can be reached. -/
theorem mem_visits_iff (walks : scheme.Walks labels path [] details forest) :
    p ∈ forest.visits ↔ ∃ q ∈ scheme.targets details, ReflTransGen scheme.Edge q p := by
  refine ⟨walks.reaches p, ?_⟩
  rintro ⟨q, target, leads⟩
  induction leads with
  | refl => exact walks.targets_subset q target
  | tail _ edge ih =>
    rcases walks.closed _ ih with ⟨_, repeated⟩ | covers
    · cases repeated
    · exact covers _ edge

end Walks

end Scheme

section FirstVisits

variable [DecidableEq ν]

end FirstVisits

section Need

variable [DecidableEq ν]

/-- How deep a visit can go: a number that falls from a node to those below it and never
grows as more is visited, if no cycle avoids the nodes that are opened only once. -/
structure Need (scheme : Scheme ν δ) (need : List ν → ν → Nat) (bound : Nat) : Prop where
  below : ∀ before p q, scheme.Edge p q → (scheme.once p = true → p ∉ before) →
    need (before ++ [p]) q < need before p
  anti : ∀ before more p, need (before ++ more) p ≤ need before p
  bounded : ∀ before p, need before p ≤ bound

theorem exists_need (scheme : Scheme ν δ) (nodes : Finset ν)
    (targets : ∀ p q, scheme.Edge p q → q ∈ nodes) (sources : ∀ p q, scheme.Edge p q → p ∈ nodes)
    (acyclic : ∀ p, ¬ TransGen scheme.Again p p) : ∃ need bound, Need scheme need bound := by
  obtain ⟨rank, falls, ranked⟩ := Reach.exists_rank nodes
    (fun p q again => targets p q again.1) acyclic
  let unseen : List ν → Finset ν := fun before =>
    nodes.filter fun p => scheme.once p = true ∧ p ∉ before
  let above : ν → Nat := fun p => if scheme.once p = true then 0 else rank p + 1
  have above_le : ∀ p, above p ≤ nodes.card + 1 := by
    intro p
    have := ranked p
    simp only [above]
    split <;> omega
  have fewer : ∀ before more, (unseen (before ++ more)).card ≤ (unseen before).card := by
    intro before more
    apply Finset.card_le_card
    intro p among
    simp only [unseen, Finset.mem_filter, List.mem_append, not_or] at among ⊢
    exact ⟨among.1, among.2.1, among.2.2.1⟩
  refine ⟨fun before p => (unseen before).card * (nodes.card + 2) + above p,
    nodes.card * (nodes.card + 2) + (nodes.card + 1), ?_, ?_, ?_⟩
  · intro before p q edge fresh
    have wider := fewer before [p]
    cases once : scheme.once p with
    | true =>
      have smaller : (unseen (before ++ [p])).card < (unseen before).card := by
        apply Finset.card_lt_card
        refine ⟨fun r among => ?_, fun all => ?_⟩
        · simp only [unseen, Finset.mem_filter, List.mem_append, not_or] at among ⊢
          exact ⟨among.1, among.2.1, among.2.2.1⟩
        · have own : p ∈ unseen before :=
            Finset.mem_filter.mpr ⟨sources p q edge, once, fresh once⟩
          have gone := all own
          simp [unseen] at gone
      have least := above_le q
      have scaled := Nat.mul_le_mul_right (nodes.card + 2) smaller
      rw [Nat.succ_mul] at scaled
      omega
    | false =>
      have scaled := Nat.mul_le_mul_right (nodes.card + 2) wider
      have lower : above q < above p := by
        simp only [above, once]
        cases once' : scheme.once q with
        | true => simp
        | false =>
          have := falls p q ⟨edge, once, once'⟩
          simp
          omega
      omega
  · intro before more p
    have scaled := Nat.mul_le_mul_right (nodes.card + 2) (fewer before more)
    omega
  · intro before p
    have all : (unseen before).card ≤ nodes.card := Finset.card_filter_le _ _
    have scaled := Nat.mul_le_mul_right (nodes.card + 2) all
    have least := above_le p
    omega

end Need

end Traversal
