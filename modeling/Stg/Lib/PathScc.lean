import Mathlib.Logic.Relation
import Mathlib.Data.List.DropRight
import Mathlib.Data.List.Nodup
import Mathlib.Data.Finset.Card
import Mathlib.Tactic.Common

set_option autoImplicit false

/- The theory of path-based strong component search. A configuration holds the
nodes already assigned to a component, the stack of open nodes in order of
discovery, and the indices of the nodes that may still be roots. Nothing here
refers to a particular traversal. -/
namespace PathScc

open Relation (ReflTransGen)

variable {ν : Type}

structure Config (ν : Type) where
  closed : ν → Prop
  opened : List ν
  roots : List Nat

/-- The shape of the two stacks, whatever the graph. -/
structure Stacked (opened : List ν) (roots : List Nat) : Prop where
  nodup : opened.Nodup
  sorted : roots.Pairwise (· < ·)
  inside : ∀ r ∈ roots, r < opened.length
  first : opened ≠ [] → 0 ∈ roots

/-- No root separates the two indices. -/
def SameSegment (roots : List Nat) (i j : Nat) : Prop :=
  ∀ r ∈ roots, (r ≤ i ↔ r ≤ j)

theorem SameSegment.top {roots : List Nat} {i j : Nat}
    (left : ∀ r ∈ roots, r ≤ i) (right : ∀ r ∈ roots, r ≤ j) : SameSegment roots i j :=
  fun r present => ⟨fun _ => right r present, fun _ => left r present⟩

/-- Open nodes reach every later open node, and every earlier one of their own
segment; the closed nodes are closed under edges. -/
structure Walk (E : ν → ν → Prop) (c : Config ν) : Prop where
  stacked : Stacked c.opened c.roots
  apart : ∀ v ∈ c.opened, ¬ c.closed v
  forward : ∀ (i j : Nat) (u v : ν), i ≤ j → c.opened[i]? = some u →
    c.opened[j]? = some v → ReflTransGen E u v
  backward : ∀ (i j : Nat) (u v : ν), SameSegment c.roots i j → c.opened[i]? = some u →
    c.opened[j]? = some v → ReflTransGen E u v
  closedEdge : ∀ u v, c.closed u → E u v → c.closed v

/-- An explored edge leads to a closed node or stays inside the segment of its source. -/
def Linked (c : Config ν) (u v : ν) : Prop :=
  c.closed v ∨ ∃ i j, c.opened[i]? = some u ∧ c.opened[j]? = some v ∧ SameSegment c.roots i j

/-- Later configurations keep the open stack as a prefix, keep closed nodes closed,
and gain no root below the old top. -/
structure Grows (c c' : Config ν) : Prop where
  opened : c.opened <+: c'.opened
  closed : ∀ v, c.closed v → c'.closed v
  roots : ∀ r ∈ c'.roots, r < c.opened.length → r ∈ c.roots

theorem Grows.refl (c : Config ν) : Grows c c :=
  ⟨List.prefix_refl _, fun _ assigned => assigned, fun _ present _ => present⟩

theorem Grows.trans {c₁ c₂ c₃ : Config ν} (first : Grows c₁ c₂) (second : Grows c₂ c₃) :
    Grows c₁ c₃ := by
  refine ⟨first.opened.trans second.opened,
    fun v assigned => second.closed v (first.closed v assigned), ?_⟩
  intro r present below
  have wider := first.opened.length_le
  exact first.roots r (second.roots r present (by omega)) below

theorem getElem?_keep {l l' : List ν} (isPrefix : l <+: l') {i : Nat} {v : ν}
    (at_ : l[i]? = some v) : l'[i]? = some v := by
  obtain ⟨rest, equal⟩ := isPrefix
  have inside := (List.getElem?_eq_some_iff.mp at_).1
  rw [← equal, List.getElem?_append_left inside, at_]

theorem Grows.getElem? {c c' : Config ν} (grows : Grows c c') {i : Nat} {v : ν}
    (at_ : c.opened[i]? = some v) : c'.opened[i]? = some v :=
  getElem?_keep grows.opened at_

theorem Grows.mem {c c' : Config ν} (grows : Grows c c') {v : ν} (present : v ∈ c.opened) :
    v ∈ c'.opened := grows.opened.subset present

theorem Linked.grow {c c' : Config ν} {u v : ν} (linked : Linked c u v) (grows : Grows c c') :
    Linked c' u v := by
  rcases linked with assigned | ⟨i, j, atI, atJ, same⟩
  · exact Or.inl (grows.closed v assigned)
  · refine Or.inr ⟨i, j, grows.getElem? atI, grows.getElem? atJ, ?_⟩
    have insideI := (List.getElem?_eq_some_iff.mp atI).1
    have insideJ := (List.getElem?_eq_some_iff.mp atJ).1
    intro r present
    by_cases low : r < c.opened.length
    · exact same r (grows.roots r present low)
    · omega

section Roots

/-- Popping the larger roots off a sorted stack keeps exactly the others. -/
theorem mem_rdropWhile {roots : List Nat} (sorted : roots.Pairwise (· < ·)) (ix r : Nat) :
    r ∈ roots.rdropWhile (fun root => decide (ix < root)) ↔ r ∈ roots ∧ r ≤ ix := by
  induction roots using List.reverseRecOn with
  | nil => simp
  | append_singleton init last ih =>
    rw [List.pairwise_append] at sorted
    have below : ∀ a ∈ init, a < last := fun a present =>
      sorted.2.2 a present last (List.mem_singleton_self last)
    by_cases beyond : ix < last
    · rw [List.rdropWhile_concat_pos _ _ _ (by simpa using beyond), ih sorted.1]
      constructor
      · rintro ⟨present, small⟩
        exact ⟨List.mem_append_left _ present, small⟩
      · rintro ⟨present, small⟩
        rcases List.mem_append.mp present with present | equal
        · exact ⟨present, small⟩
        · rw [List.mem_singleton] at equal
          omega
    · rw [List.rdropWhile_concat_neg _ _ _ (by simpa using beyond)]
      constructor
      · intro present
        refine ⟨present, ?_⟩
        rcases List.mem_append.mp present with present | equal
        · have := below r present
          omega
        · rw [List.mem_singleton] at equal
          omega
      · exact And.left

/-- The last entry of a sorted stack bounds every entry. -/
theorem le_getLast {roots : List Nat} (sorted : roots.Pairwise (· < ·)) {last : Nat}
    (top : roots.getLast? = some last) : last ∈ roots ∧ ∀ r ∈ roots, r ≤ last := by
  obtain ⟨init, rfl⟩ := List.getLast?_eq_some_iff.mp top
  rw [List.pairwise_append] at sorted
  refine ⟨by simp, ?_⟩
  intro r present
  rcases List.mem_append.mp present with present | equal
  · exact Nat.le_of_lt (sorted.2.2 r present last (List.mem_singleton_self last))
  · exact Nat.le_of_eq (List.mem_singleton.mp equal)

theorem mem_dropLast {roots : List Nat} (sorted : roots.Pairwise (· < ·)) {last : Nat}
    (top : roots.getLast? = some last) (r : Nat) :
    r ∈ roots.dropLast ↔ r ∈ roots ∧ r < last := by
  obtain ⟨init, rfl⟩ := List.getLast?_eq_some_iff.mp top
  rw [List.pairwise_append] at sorted
  rw [List.dropLast_concat, List.mem_append, List.mem_singleton]
  constructor
  · intro present
    exact ⟨Or.inl present, sorted.2.2 r present last (List.mem_singleton_self last)⟩
  · rintro ⟨present | equal, small⟩
    · exact present
    · omega

end Roots

section Configurations

variable {E : ν → ν → Prop} {c c' c₀ : Config ν} {p q : ν}

/-- A node is discovered: it becomes the top of the stack and a potential root. -/
def Config.push (c : Config ν) (p : ν) : Config ν :=
  ⟨c.closed, c.opened ++ [p], c.roots ++ [c.opened.length]⟩

/-- An open node is met again: no root above it can survive. -/
def Config.collapse (c : Config ν) (ix : Nat) : Config ν :=
  ⟨c.closed, c.opened, c.roots.rdropWhile (fun root => decide (ix < root))⟩

/-- The top segment is assigned. -/
def Config.finish (c : Config ν) (ix : Nat) : Config ν :=
  ⟨fun v => c.closed v ∨ v ∈ c.opened.drop ix, c.opened.take ix, c.roots.dropLast⟩

theorem Stacked.index_unique {opened : List ν} {roots : List Nat} (stacked : Stacked opened roots)
    {i j : Nat} {v : ν} (atI : opened[i]? = some v) (atJ : opened[j]? = some v) : i = j := by
  obtain ⟨insideI, equalI⟩ := List.getElem?_eq_some_iff.mp atI
  obtain ⟨insideJ, equalJ⟩ := List.getElem?_eq_some_iff.mp atJ
  exact (List.Nodup.getElem_inj_iff stacked.nodup).mp (equalI.trans equalJ.symm)

theorem Grows.push (c : Config ν) (p : ν) : Grows c (c.push p) := by
  refine ⟨List.prefix_append _ _, fun _ assigned => assigned, ?_⟩
  intro r present below
  rcases List.mem_append.mp present with old | new
  · exact old
  · rw [List.mem_singleton] at new
    omega

theorem Stacked.push {opened : List ν} {roots : List Nat} (stacked : Stacked opened roots)
    (fresh : p ∉ opened) : Stacked (opened ++ [p]) (roots ++ [opened.length]) where
  nodup := by
    rw [List.nodup_append]
    refine ⟨stacked.nodup, List.nodup_singleton p, ?_⟩
    intro a presentA b presentB equal
    rw [List.mem_singleton] at presentB
    exact fresh (presentB ▸ equal ▸ presentA)
  sorted := by
    rw [List.pairwise_append]
    refine ⟨stacked.sorted, List.pairwise_singleton _ _, ?_⟩
    intro a presentA b presentB
    rw [List.mem_singleton.mp presentB]
    exact stacked.inside a presentA
  inside := by
    intro r present
    rw [List.length_append, List.length_singleton]
    rcases List.mem_append.mp present with old | new
    · have := stacked.inside r old
      omega
    · rw [List.mem_singleton] at new
      omega
  first := by
    intro _
    by_cases empty : opened = []
    · simp [empty]
    · exact List.mem_append_left _ (stacked.first empty)

theorem Stacked.collapse {opened : List ν} {roots : List Nat} (stacked : Stacked opened roots)
    (ix : Nat) : Stacked opened (roots.rdropWhile (fun root => decide (ix < root))) where
  nodup := stacked.nodup
  sorted := stacked.sorted.sublist (List.rdropWhile_prefix _ _).sublist
  inside := fun r present =>
    stacked.inside r ((mem_rdropWhile stacked.sorted ix r).mp present).1
  first := fun nonempty =>
    (mem_rdropWhile stacked.sorted ix 0).mpr ⟨stacked.first nonempty, Nat.zero_le ix⟩

theorem Stacked.finish {opened : List ν} {roots : List Nat} (stacked : Stacked opened roots)
    {ix : Nat} (top : roots.getLast? = some ix) : Stacked (opened.take ix) roots.dropLast where
  nodup := stacked.nodup.sublist (List.take_sublist _ _)
  sorted := stacked.sorted.sublist (List.dropLast_sublist _)
  inside := by
    intro r present
    obtain ⟨_, below⟩ := (mem_dropLast stacked.sorted top r).mp present
    have bound := stacked.inside ix (le_getLast stacked.sorted top).1
    rw [List.length_take]
    omega
  first := by
    intro nonempty
    have zero := stacked.first (fun empty => nonempty (by simp [empty]))
    refine (mem_dropLast stacked.sorted top 0).mpr ⟨zero, ?_⟩
    rcases Nat.eq_zero_or_pos ix with rfl | positive
    · exact absurd (List.take_zero) nonempty
    · exact positive

theorem Stacked.last {opened : List ν} {roots : List Nat} (stacked : Stacked opened roots)
    (nonempty : opened ≠ []) : ∃ root, roots.getLast? = some root :=
  ⟨_, List.getLast?_eq_some_getLast (List.ne_nil_of_mem (stacked.first nonempty))⟩

theorem Stacked.no_roots {opened : List ν} {roots : List Nat} (stacked : Stacked opened roots) :
    opened = [] ↔ roots = [] := by
  constructor
  · intro none
    apply List.eq_nil_iff_forall_not_mem.mpr
    intro r present
    have := stacked.inside r present
    simp [none] at this
  · intro none
    by_contra nonempty
    have := stacked.first nonempty
    simp [none] at this

theorem Walk.push (walk : Walk E c) (fresh : p ∉ c.opened) (unassigned : ¬ c.closed p)
    (reach : ∀ u ∈ c.opened, ReflTransGen E u p) : Walk E (c.push p) where
  stacked := walk.stacked.push fresh
  apart := by
    intro v present
    rcases List.mem_append.mp present with old | new
    · exact walk.apart v old
    · rw [List.mem_singleton.mp new]
      exact unassigned
  forward := by
    intro i j u v le atI atJ
    simp only [Config.push, List.getElem?_append, List.getElem?_singleton] at atI atJ
    split at atJ
    · rename_i insideJ
      rw [if_pos (by omega)] at atI
      exact walk.forward i j u v le atI atJ
    · rename_i outsideJ
      split at atJ
      · cases atJ
        split at atI
        · exact reach u (List.mem_of_getElem? atI)
        · split at atI
          · cases atI
            exact .refl
          · cases atI
      · cases atJ
  backward := by
    intro i j u v same atI atJ
    have boundary := same c.opened.length (by simp [Config.push])
    simp only [Config.push, List.getElem?_append, List.getElem?_singleton] at atI atJ
    split at atI
    · rename_i insideI
      have insideJ : j < c.opened.length := by omega
      rw [if_pos insideJ] at atJ
      refine walk.backward i j u v (fun r present => same r ?_) atI atJ
      exact List.mem_append_left _ present
    · rename_i outsideI
      have outsideJ : ¬ j < c.opened.length := by omega
      rw [if_neg outsideJ] at atJ
      split at atI
      · split at atJ
        · cases atI
          cases atJ
          exact .refl
        · cases atJ
      · cases atI
  closedEdge := walk.closedEdge

/-- Meeting an open node merges its segment with every later one: each of their
nodes reaches the node that is met, and that node reaches everything after it. -/
theorem Walk.collapse (walk : Walk E c) {ix : Nat} (at_ : c.opened[ix]? = some p)
    (reach : ∀ u ∈ c.opened, ReflTransGen E u p) : Walk E (c.collapse ix) where
  stacked := walk.stacked.collapse ix
  apart := walk.apart
  forward := walk.forward
  backward := by
    intro i j u v same atI atJ
    have through := reach u (List.mem_of_getElem? atI)
    by_cases later : ix ≤ j
    · exact through.trans (walk.forward ix j p v later at_ atJ)
    · have low : ∀ r ∈ c.roots, r ≤ ix → (r ≤ i ↔ r ≤ j) := fun r present bound =>
        same r ((mem_rdropWhile walk.stacked.sorted ix r).mpr ⟨present, bound⟩)
      by_cases early : i ≤ ix
      · refine walk.backward i j u v (fun r present => ?_) atI atJ
        by_cases bound : r ≤ ix
        · exact low r present bound
        · omega
      · -- no root is left between `j` and the node that is met
        refine through.trans (walk.backward ix j p v (fun r present => ?_) at_ atJ)
        constructor
        · intro bound
          exact (low r present bound).mp (by omega)
        · omega
  closedEdge := walk.closedEdge

theorem Walk.index_of_mem_drop (walk : Walk E c) {ix i : Nat} {u : ν}
    (present : u ∈ c.opened.drop ix) (atI : c.opened[i]? = some u) : ix ≤ i := by
  obtain ⟨k, atK⟩ := List.mem_iff_getElem?.mp present
  rw [List.getElem?_drop] at atK
  have := walk.stacked.index_unique atI atK
  omega

/-- The top segment is one class of mutually reachable nodes. -/
theorem Walk.mutual (walk : Walk E c) {ix : Nat} (top : c.roots.getLast? = some ix) {u v : ν}
    (presentU : u ∈ c.opened.drop ix) (presentV : v ∈ c.opened.drop ix) :
    ReflTransGen E u v := by
  obtain ⟨i, atI⟩ := List.mem_iff_getElem?.mp presentU
  obtain ⟨j, atJ⟩ := List.mem_iff_getElem?.mp presentV
  rw [List.getElem?_drop] at atI atJ
  have bounded := (le_getLast walk.stacked.sorted top).2
  refine walk.backward (ix + i) (ix + j) u v (SameSegment.top ?_ ?_) atI atJ
  · intro r present
    exact Nat.le_trans (bounded r present) (Nat.le_add_right ix i)
  · intro r present
    exact Nat.le_trans (bounded r present) (Nat.le_add_right ix j)

/-- An edge that is linked from the top segment stays in it or leads to a closed node. -/
theorem Walk.linked_segment (walk : Walk E c) {ix : Nat} (top : c.roots.getLast? = some ix)
    {u v : ν} (presentU : u ∈ c.opened.drop ix) (linked : Linked c u v) :
    c.closed v ∨ v ∈ c.opened.drop ix := by
  rcases linked with assigned | ⟨i, j, atI, atJ, same⟩
  · exact Or.inl assigned
  · have start := walk.index_of_mem_drop presentU atI
    have root := (le_getLast walk.stacked.sorted top).1
    have beyond : ix ≤ j := (same ix root).mp start
    refine Or.inr (List.mem_iff_getElem?.mpr ⟨j - ix, ?_⟩)
    rw [List.getElem?_drop, Nat.add_sub_cancel' beyond]
    exact atJ

theorem Walk.finish (walk : Walk E c) {ix : Nat} (top : c.roots.getLast? = some ix)
    (explored : ∀ u ∈ c.opened.drop ix, ∀ v, E u v → Linked c u v) : Walk E (c.finish ix) where
  stacked := walk.stacked.finish top
  apart := by
    rintro v present (assigned | segment)
    · exact walk.apart v (List.mem_of_mem_take present) assigned
    · exact List.disjoint_take_drop walk.stacked.nodup (Nat.le_refl ix) present segment
  forward := by
    intro i j u v le atI atJ
    exact walk.forward i j u v le (getElem?_keep (List.take_prefix ix _) atI)
      (getElem?_keep (List.take_prefix ix _) atJ)
  backward := by
    intro i j u v same atI atJ
    simp only [Config.finish, List.getElem?_take] at atI atJ
    split at atI
    · split at atJ
      · refine walk.backward i j u v (fun r present => ?_) atI atJ
        by_cases below : r < ix
        · exact same r ((mem_dropLast walk.stacked.sorted top r).mpr ⟨present, below⟩)
        · omega
      · cases atJ
    · cases atI
  closedEdge := by
    rintro u v (assigned | segment) edge
    · exact Or.inl (walk.closedEdge u v assigned edge)
    · exact walk.linked_segment top segment (explored u segment v edge)

/-- The top segment is maximal: a node it is mutually connected with belongs to it. -/
theorem Walk.segment_class (walk : Walk E c) {ix : Nat} (top : c.roots.getLast? = some ix)
    (explored : ∀ u ∈ c.opened.drop ix, ∀ v, E u v → Linked c u v) {u v : ν}
    (presentU : u ∈ c.opened.drop ix) :
    v ∈ c.opened.drop ix ↔ ReflTransGen E u v ∧ ReflTransGen E v u := by
  constructor
  · intro presentV
    exact ⟨walk.mutual top presentU presentV, walk.mutual top presentV presentU⟩
  · rintro ⟨out, back⟩
    have finished := walk.finish top explored
    have closedUnder : ∀ x y, ReflTransGen E x y → (c.finish ix).closed x →
        (c.finish ix).closed y := by
      intro x y path assigned
      induction path with
      | refl => exact assigned
      | tail _ edge ih => exact finished.closedEdge _ _ ih edge
    rcases closedUnder u v out (Or.inr presentU) with assigned | segment
    · have old : ∀ x y, ReflTransGen E x y → c.closed x → c.closed y := by
        intro x y path assigned
        induction path with
        | refl => exact assigned
        | tail _ edge ih => exact walk.closedEdge _ _ ih edge
      exact absurd (old v u back assigned) (walk.apart u (List.mem_of_mem_drop presentU))
    · exact segment

end Configurations

section Visits

variable {E : ν → ν → Prop} {c c' c₀ : Config ν} {p q : ν}

/-- What following one edge to `p` does: `p` ends up closed or in the top segment
of the old stack, and the nodes left open above that stack are fully explored. -/
structure Visited (E : ν → ν → Prop) (c c' : Config ν) (p : ν) : Prop where
  walk : Walk E c'
  grows : Grows c c'
  roots : ∀ r ∈ c'.roots, r ∈ c.roots
  settled : c'.closed p ∨ ∃ i, c'.opened[i]? = some p ∧ ∀ r ∈ c'.roots, r ≤ i
  finished : ∀ (i : Nat) (u : ν), c.opened.length ≤ i → c'.opened[i]? = some u →
    ∀ v, E u v → Linked c' u v

theorem Visited.skip (walk : Walk E c) (assigned : c.closed p) : Visited E c c p where
  walk := walk
  grows := Grows.refl c
  roots := fun _ present => present
  settled := Or.inl assigned
  finished := by
    intro i u beyond at_
    rw [List.getElem?_eq_none beyond] at at_
    cases at_

theorem Visited.reopen (walk : Walk E c) {ix : Nat} (at_ : c.opened[ix]? = some p)
    (reach : ∀ u ∈ c.opened, ReflTransGen E u p) : Visited E c (c.collapse ix) p where
  walk := walk.collapse at_ reach
  grows := ⟨List.prefix_refl _, fun _ assigned => assigned,
    fun r present _ => ((mem_rdropWhile walk.stacked.sorted ix r).mp present).1⟩
  roots := fun r present => ((mem_rdropWhile walk.stacked.sorted ix r).mp present).1
  settled := Or.inr ⟨ix, at_, fun r present =>
    ((mem_rdropWhile walk.stacked.sorted ix r).mp present).2⟩
  finished := by
    intro i u beyond atI
    have none := List.getElem?_eq_none beyond
    rw [show (c.collapse ix).opened = c.opened from rfl, none] at atI
    cases atI

/-- After a search from the empty stack no node is left open. -/
theorem Visited.opened_nil (visited : Visited E c c' p) (before : Stacked c.opened c.roots)
    (idle : c.opened = []) : c'.opened = [] := by
  rw [visited.walk.stacked.no_roots, List.eq_nil_iff_forall_not_mem]
  intro r present
  have old := visited.roots r present
  rw [before.no_roots.mp idle] at old
  cases old

/-- The state of affairs while `p`, discovered from `c₀`, has the out-edges in
`seen` behind it. -/
structure Examining (E : ν → ν → Prop) (c₀ c : Config ν) (p : ν) (seen : ν → Prop) : Prop where
  walk : Walk E c
  grows : Grows (c₀.push p) c
  top : ∀ r ∈ c.roots, r ≤ c₀.opened.length
  linked : ∀ v, seen v → Linked c p v
  finished : ∀ (i : Nat) (u : ν), c₀.opened.length < i → c.opened[i]? = some u →
    ∀ v, E u v → Linked c u v

theorem Examining.start (walk : Walk E c) (fresh : p ∉ c.opened) (unassigned : ¬ c.closed p)
    (reach : ∀ u ∈ c.opened, ReflTransGen E u p) :
    Examining E c (c.push p) p (fun _ => False) where
  walk := walk.push fresh unassigned reach
  grows := Grows.refl _
  top := by
    intro r present
    rcases List.mem_append.mp present with old | new
    · exact Nat.le_of_lt (walk.stacked.inside r old)
    · exact Nat.le_of_eq (List.mem_singleton.mp new)
  linked := fun _ impossible => impossible.elim
  finished := by
    intro i u beyond at_
    have none : (c.push p).opened[i]? = none :=
      List.getElem?_eq_none
        (by simp only [Config.push, List.length_append, List.length_singleton]; omega)
    rw [none] at at_
    cases at_

variable {seen : ν → Prop}

theorem Examining.self (examining : Examining E c₀ c p seen) :
    c.opened[c₀.opened.length]? = some p :=
  examining.grows.getElem? (by simp [Config.push])

/-- Every open node reaches the node under examination. -/
theorem Examining.reach (examining : Examining E c₀ c p seen) :
    ∀ u ∈ c.opened, ReflTransGen E u p := by
  intro u present
  obtain ⟨i, at_⟩ := List.mem_iff_getElem?.mp present
  by_cases early : i ≤ c₀.opened.length
  · exact examining.walk.forward i _ u p early at_ examining.self
  · refine examining.walk.backward i _ u p (SameSegment.top ?_ examining.top) at_ examining.self
    intro r root
    have := examining.top r root
    omega

theorem Examining.visit (examining : Examining E c₀ c p seen) (visited : Visited E c c' q) :
    Examining E c₀ c' p (fun v => seen v ∨ v = q) where
  walk := visited.walk
  grows := examining.grows.trans visited.grows
  top := fun r present => examining.top r (visited.roots r present)
  linked := by
    rintro v (old | rfl)
    · exact (examining.linked v old).grow visited.grows
    · rcases visited.settled with assigned | ⟨i, at_, bound⟩
      · exact Or.inl assigned
      · exact Or.inr ⟨_, i, visited.grows.getElem? examining.self, at_,
          SameSegment.top (fun r present => examining.top r (visited.roots r present)) bound⟩
  finished := by
    intro i u beyond at_ v edge
    by_cases old : i < c.opened.length
    · have atOld := List.getElem?_eq_getElem old
      have same : c.opened[i] = u := by
        have kept := visited.grows.getElem? atOld
        rw [at_] at kept
        exact (Option.some.inj kept).symm
      rw [same] at atOld
      exact (examining.finished i u beyond atOld v edge).grow visited.grows
    · exact visited.finished i u (Nat.le_of_not_lt old) at_ v edge

theorem Examining.explored (examining : Examining E c₀ c p seen)
    (complete : ∀ v, E p v → seen v) (i : Nat) (u : ν) (beyond : c₀.opened.length ≤ i)
    (at_ : c.opened[i]? = some u) (v : ν) (edge : E u v) : Linked c u v := by
  rcases Nat.eq_or_lt_of_le beyond with equal | after
  · subst equal
    have same : p = u := Option.some.inj (examining.self.symm.trans at_)
    subst same
    exact examining.linked v (complete v edge)
  · exact examining.finished i u after at_ v edge

theorem Examining.explored_drop (examining : Examining E c₀ c p seen)
    (complete : ∀ v, E p v → seen v) :
    ∀ u ∈ c.opened.drop c₀.opened.length, ∀ v, E u v → Linked c u v := by
  intro u present v edge
  obtain ⟨k, at_⟩ := List.mem_iff_getElem?.mp present
  rw [List.getElem?_drop] at at_
  exact examining.explored complete _ u (Nat.le_add_right _ k) at_ v edge

theorem Examining.take (examining : Examining E c₀ c p seen) :
    c.opened.take c₀.opened.length = c₀.opened := by
  obtain ⟨rest, equal⟩ := examining.grows.opened
  rw [← equal, Config.push, List.append_assoc, List.take_left]

theorem Examining.old_root (examining : Examining E c₀ c p seen) {r : Nat}
    (present : r ∈ c.roots) (below : r < c₀.opened.length) : r ∈ c₀.roots := by
  have pushed := examining.grows.roots r present
    (by simp only [Config.push, List.length_append, List.length_singleton]; omega)
  rcases List.mem_append.mp pushed with old | new
  · exact old
  · rw [List.mem_singleton] at new
    omega

/-- The last root lies below `p`: its component is not complete and it stays open. -/
theorem Examining.stay (examining : Examining E c₀ c p seen)
    (complete : ∀ v, E p v → seen v) {root : Nat} (last : c.roots.getLast? = some root)
    (lower : root ≠ c₀.opened.length) : Visited E c₀ c p where
  walk := examining.walk
  grows := (Grows.push c₀ p).trans examining.grows
  roots := by
    obtain ⟨present, bound⟩ := le_getLast examining.walk.stacked.sorted last
    have below := examining.top root present
    intro r presentR
    have := bound r presentR
    exact examining.old_root presentR (by omega)
  settled := Or.inr ⟨_, examining.self, examining.top⟩
  finished := examining.explored complete

/-- The last root is `p` itself: the segment from `p` on is a complete component. -/
theorem Examining.close (examining : Examining E c₀ c p seen)
    (complete : ∀ v, E p v → seen v) (last : c.roots.getLast? = some c₀.opened.length) :
    Visited E c₀ (c.finish c₀.opened.length) p where
  walk := examining.walk.finish last (examining.explored_drop complete)
  grows := by
    refine ⟨?_, ?_, ?_⟩
    · change c₀.opened <+: c.opened.take c₀.opened.length
      exact examining.take.symm ▸ List.prefix_refl c₀.opened
    · intro v assigned
      exact Or.inl (examining.grows.closed v assigned)
    · intro r present below
      have old := (mem_dropLast examining.walk.stacked.sorted last r).mp present
      exact examining.old_root old.1 below
  roots := by
    intro r present
    have old := (mem_dropLast examining.walk.stacked.sorted last r).mp present
    exact examining.old_root old.1 old.2
  settled := by
    refine Or.inl (Or.inr (List.mem_iff_getElem?.mpr ⟨0, ?_⟩))
    rw [List.getElem?_drop]
    exact examining.self
  finished := by
    intro i u beyond at_
    have none : (c.finish c₀.opened.length).opened[i]? = none := by
      rw [Config.finish, examining.take]
      exact List.getElem?_eq_none beyond
    rw [none] at at_
    cases at_

end Visits

section Measure

open Classical

/-- The nodes of a finite set that a traversal has not met yet. -/
noncomputable def Config.pending (c : Config ν) (nodes : Finset ν) : Nat :=
  (nodes.filter fun v => ¬ c.closed v ∧ v ∉ c.opened).card

theorem Grows.pending_le {c c' : Config ν} (grows : Grows c c') (nodes : Finset ν) :
    c'.pending nodes ≤ c.pending nodes := by
  apply Finset.card_le_card
  intro v present
  rw [Finset.mem_filter] at present ⊢
  exact ⟨present.1, fun assigned => present.2.1 (grows.closed v assigned),
    fun opened => present.2.2 (grows.mem opened)⟩

theorem Config.pending_push_lt {c : Config ν} {p : ν} {nodes : Finset ν} (inside : p ∈ nodes)
    (fresh : p ∉ c.opened) (unassigned : ¬ c.closed p) :
    (c.push p).pending nodes < c.pending nodes := by
  apply Finset.card_lt_card
  refine ⟨?_, fun subset => ?_⟩
  · intro v present
    rw [Finset.mem_filter] at present ⊢
    exact ⟨present.1, present.2.1, fun opened => present.2.2 ((Grows.push c p).mem opened)⟩
  · have present := subset (Finset.mem_filter.mpr ⟨inside, unassigned, fresh⟩)
    exact (Finset.mem_filter.mp present).2.2 (by simp [Config.push])

theorem Config.pending_le_card (c : Config ν) (nodes : Finset ν) : c.pending nodes ≤ nodes.card :=
  Finset.card_filter_le _ _

end Measure

end PathScc
