import Stg.Scc

set_option autoImplicit false

/- The documented way to drive the component finder: a depth first search that
skips assigned nodes, opens the others, follows every edge and closes. -/
namespace Stg

open PathScc
open Relation (ReflTransGen)

structure Search (ν : Type) where
  assigned : List ν := []
  finder : Scc ν := {}
  /-- What each call of `Close` returned, in order. -/
  closes : List (List ν) := []

section

variable {ν : Type}

/-- The call of `Close` with number `i` returned `v`. -/
def Search.ReturnedBy (s : Search ν) (i : Nat) (v : ν) : Prop :=
  ∃ component, s.closes[i]? = some component ∧ v ∈ component

theorem mem_flatten_take {closes : List (List ν)} {i : Nat} {v : ν}
    (present : v ∈ (closes.take i).flatten) :
    ∃ j < i, ∃ component, closes[j]? = some component ∧ v ∈ component := by
  obtain ⟨component, among, present⟩ := List.mem_flatten.mp present
  obtain ⟨j, at_⟩ := List.mem_iff_getElem?.mp among
  rw [List.getElem?_take] at at_
  split at at_
  · rename_i before
    exact ⟨j, before, component, at_, present⟩
  · cases at_

/-- A node occurs in the answer of only one closing call. -/
theorem call_unique {closes : List (List ν)} (nodup : closes.flatten.Nodup) {i j : Nat}
    {first second : List ν} {v : ν} (atI : closes[i]? = some first) (atJ : closes[j]? = some second)
    (presentI : v ∈ first) (presentJ : v ∈ second) : i = j := by
  have apart := (List.nodup_flatten.mp nodup).2
  rw [List.pairwise_iff_getElem] at apart
  obtain ⟨insideI, rfl⟩ := List.getElem?_eq_some_iff.mp atI
  obtain ⟨insideJ, rfl⟩ := List.getElem?_eq_some_iff.mp atJ
  rcases Nat.lt_trichotomy i j with less | equal | greater
  · exact absurd presentJ (apart i j insideI insideJ less presentI)
  · exact equal
  · exact absurd presentI (apart j i insideJ insideI greater presentJ)

end

variable {ν : Type} [DecidableEq ν]

def dfs (edges : ν → List ν) : Nat → ν → Search ν → Except Error (Search ν)
  | 0, _, _ => .error .outOfFuel
  | fuel + 1, node, s =>
    if node ∈ s.assigned then pure s
    else do
      let (handle, finder) ← s.finder.openNode node
      match handle with
      | none => pure { s with finder }
      | some handle =>
        let s ← (edges node).foldlM (fun s next => dfs edges fuel next s) { s with finder }
        let (nodes, finder) ← s.finder.closeNode handle
        pure ⟨s.assigned ++ nodes, finder, s.closes ++ [nodes]⟩

/-- Repeated top-level searches with one finder. -/
def process (edges : ν → List ν) (fuel : Nat) (starts : List ν) (s : Search ν) :
    Except Error (Search ν) :=
  starts.foldlM (fun s start => dfs edges fuel start s) s

namespace Search

def Edge (edges : ν → List ν) (u v : ν) : Prop := v ∈ edges u

def config (s : Search ν) : Config ν := s.finder.config (· ∈ s.assigned)

/-- Two nodes lie on a common cycle, or are equal. -/
def Connected (edges : ν → List ν) (u v : ν) : Prop :=
  ReflTransGen (Edge edges) u v ∧ ReflTransGen (Edge edges) v u

structure Inv (edges : ν → List ν) (s : Search ν) : Prop where
  valid : s.finder.Valid
  walk : Walk (Edge edges) s.config
  assigned : s.assigned = s.closes.flatten
  nodup : s.assigned.Nodup
  classes : ∀ component ∈ s.closes, ∀ u ∈ component, ∀ v,
    v ∈ component ↔ Connected edges u v
  leavesFirst : ∀ i component, s.closes[i]? = some component → ∀ u ∈ component,
    ∀ v ∈ edges u, v ∈ (s.closes.take i).flatten ∨ v ∈ component

theorem Inv.new (edges : ν → List ν) : Inv edges ({} : Search ν) where
  valid := Scc.Valid.new
  walk := by
    refine ⟨Scc.Valid.new.stacked, ?_, ?_, ?_, ?_⟩ <;> simp [config, Scc.config]
  assigned := rfl
  nodup := List.nodup_nil
  classes := by simp
  leavesFirst := by simp

variable {edges : ν → List ν} {s : Search ν} {c₀ : Config ν} {node : ν} {seen : ν → Prop}

/-- A closing call that returns nothing only lengthens the record of calls. -/
theorem Inv.close_empty (inv : Inv edges s) :
    Inv edges { s with closes := s.closes ++ [[]] } where
  valid := inv.valid
  walk := inv.walk
  assigned := by simp [inv.assigned]
  nodup := inv.nodup
  classes := by
    intro component present
    rcases List.mem_append.mp present with old | new
    · exact inv.classes component old
    · simp [List.mem_singleton.mp new]
  leavesFirst := by
    intro i component at_ u present v edge
    rw [List.getElem?_append] at at_
    split at at_
    · rename_i inside
      rw [List.take_append_of_le_length (Nat.le_of_lt inside)]
      exact inv.leavesFirst i component at_ u present v edge
    · rw [List.getElem?_singleton] at at_
      split at at_
      · cases at_
        cases present
      · cases at_

/-- A closing call that returns the top segment returns one class, whose edges
lead to earlier classes or stay inside. -/
theorem Inv.close_root (inv : Inv edges s)
    (examining : Examining (Edge edges) c₀ s.config node seen)
    (complete : ∀ v, Edge edges node v → seen v) {finder : Scc ν} (valid : finder.Valid)
    (last : s.finder.rootIndex.getLast? = some c₀.opened.length)
    (opened : finder.open_ = s.finder.open_.take c₀.opened.length)
    (roots : finder.rootIndex = s.finder.rootIndex.dropLast) :
    Inv edges ⟨s.assigned ++ s.finder.open_.drop c₀.opened.length, finder,
        s.closes ++ [s.finder.open_.drop c₀.opened.length]⟩ ∧
      Visited (Edge edges) c₀ (config ⟨s.assigned ++ s.finder.open_.drop c₀.opened.length, finder,
        s.closes ++ [s.finder.open_.drop c₀.opened.length]⟩) node := by
  have visited := examining.close complete last
  have explored := examining.explored_drop complete
  have same : config ⟨s.assigned ++ s.finder.open_.drop c₀.opened.length, finder,
      s.closes ++ [s.finder.open_.drop c₀.opened.length]⟩ =
      s.config.finish c₀.opened.length := by
    simp [config, Scc.config, Config.finish, opened, roots]
  refine ⟨⟨valid, same ▸ visited.walk, ?_, ?_, ?_, ?_⟩, same ▸ visited⟩
  · simp [inv.assigned]
  · rw [List.nodup_append]
    refine ⟨inv.nodup, inv.valid.stacked.nodup.sublist (List.drop_sublist _ _), ?_⟩
    intro a assigned b segment equal
    exact inv.walk.apart b (List.mem_of_mem_drop segment) (equal ▸ assigned)
  · intro component present
    rcases List.mem_append.mp present with old | new
    · exact inv.classes component old
    · rw [List.mem_singleton.mp new]
      intro u presentU v
      exact inv.walk.segment_class last explored presentU
  · intro i component at_ u present v edge
    rw [List.getElem?_append] at at_
    split at at_
    · rename_i inside
      rw [List.take_append_of_le_length (Nat.le_of_lt inside)]
      exact inv.leavesFirst i component at_ u present v edge
    · rw [List.getElem?_singleton] at at_
      split at at_
      · rename_i outside first
        cases at_
        have whole : (s.closes ++ [s.finder.open_.drop c₀.opened.length]).take i = s.closes := by
          rw [show i = s.closes.length by omega, List.take_left]
        rw [whole, ← inv.assigned]
        exact inv.walk.linked_segment last present (explored u present v edge)
      · cases at_

section Runs

variable {nodes : Finset ν}

/-- One search from `node` succeeds, keeps the invariant and visits `node`. -/
def Explores (edges : ν → List ν) (fuel : Nat) (s : Search ν) (node : ν) : Prop :=
  ∃ s', dfs edges fuel node s = .ok s' ∧ Inv edges s' ∧
    Visited (Edge edges) s.config s'.config node

/-- Following the out-edges one after the other, each by a search that succeeds. -/
theorem explore_edges {fuel : Nat}
    (searches : ∀ (s : Search ν) (next : ν), Inv edges s → next ∈ nodes →
      (∀ u ∈ s.finder.open_, ReflTransGen (Edge edges) u next) →
      s.config.pending nodes < fuel → Explores edges fuel s next)
    (todo : List ν) (inside : ∀ next ∈ todo, next ∈ nodes)
    (outgoing : ∀ next ∈ todo, Edge edges node next) :
    ∀ (seen : ν → Prop) (s : Search ν), Inv edges s →
      Examining (Edge edges) c₀ s.config node seen → s.config.pending nodes < fuel →
      ∃ s', todo.foldlM (fun s next => dfs edges fuel next s) s = .ok s' ∧ Inv edges s' ∧
        Examining (Edge edges) c₀ s'.config node (fun v => seen v ∨ v ∈ todo) := by
  induction todo with
  | nil =>
    intro seen s inv examining _
    exact ⟨s, rfl, inv, by simpa using examining⟩
  | cons next rest ih =>
    intro seen s inv examining bound
    have reach : ∀ u ∈ s.finder.open_, ReflTransGen (Edge edges) u next := fun u present =>
      (examining.reach u present).tail (outgoing next (by simp))
    obtain ⟨s₁, first, inv₁, visited⟩ :=
      searches s next inv (inside next (by simp)) reach bound
    have below : s₁.config.pending nodes < fuel :=
      Nat.lt_of_le_of_lt (visited.grows.pending_le nodes) bound
    obtain ⟨s₂, others, inv₂, examining₂⟩ := ih
      (fun v present => inside v (by simp [present]))
      (fun v present => outgoing v (by simp [present]))
      _ s₁ inv₁ (examining.visit visited) below
    refine ⟨s₂, ?_, inv₂, ?_⟩
    · rw [List.foldlM_cons, first]
      exact others
    · simpa only [List.mem_cons, or_assoc] using examining₂

theorem dfs_explores (closedUnder : ∀ u ∈ nodes, ∀ v ∈ edges u, v ∈ nodes) (fuel : Nat) :
    ∀ (s : Search ν) (node : ν), Inv edges s → node ∈ nodes →
      (∀ u ∈ s.finder.open_, ReflTransGen (Edge edges) u node) →
      s.config.pending nodes < fuel → Explores edges fuel s node := by
  induction fuel with
  | zero => intro s node _ _ _ bound; exact absurd bound (Nat.not_lt_zero _)
  | succ fuel ih =>
    intro s node inv inside reach bound
    by_cases assigned : node ∈ s.assigned
    · exact ⟨s, by simp [dfs, assigned]; rfl, inv, Visited.skip inv.walk assigned⟩
    by_cases isOpen : node ∈ s.finder.open_
    · obtain ⟨ix, at_⟩ := List.mem_iff_getElem?.mp isOpen
      obtain ⟨reopened, valid⟩ := inv.valid.openNode_open at_
      have visited : Visited (Edge edges) s.config (s.config.collapse ix) node :=
        Visited.reopen inv.walk at_ reach
      refine ⟨{ s with finder := _ }, ?_, ⟨valid, visited.walk, inv.assigned, inv.nodup,
        inv.classes, inv.leavesFirst⟩, visited⟩
      simp only [dfs, assigned, ↓reduceIte, reopened]
      rfl
    · -- the node is discovered: examine it, then close it
      obtain ⟨finder, opened, valid, stack, roots⟩ := inv.valid.openNode_fresh isOpen
      have pushed : config { s with finder } = s.config.push node := by
        simp [config, Scc.config, Config.push, stack, roots]
      have started : Examining (Edge edges) s.config (config { s with finder }) node
          (fun _ => False) := pushed ▸ Examining.start inv.walk isOpen assigned reach
      have inv₁ : Inv edges { s with finder } :=
        ⟨valid, started.walk, inv.assigned, inv.nodup, inv.classes, inv.leavesFirst⟩
      have smaller := Config.pending_push_lt (c := s.config) inside isOpen assigned
      obtain ⟨s₂, explored, inv₂, examining⟩ := explore_edges (fun s next => ih s next)
        (edges node) (closedUnder node inside) (fun _ present => present) _ _ inv₁ started
        (by rw [pushed]; omega)
      have complete : ∀ v, Edge edges node v → False ∨ v ∈ edges node := fun _ => Or.inr
      have within : s.finder.open_.length < s₂.finder.open_.length :=
        (List.getElem?_eq_some_iff.mp examining.self).1
      obtain ⟨root, last⟩ := inv₂.valid.stacked.last
        (List.ne_nil_of_length_pos (Nat.lt_of_le_of_lt (Nat.zero_le _) within))
      by_cases isRoot : root = s.finder.open_.length
      · subst isRoot
        obtain ⟨finder', closed, valid', stack', roots'⟩ := inv₂.valid.closeNode_root last
        obtain ⟨inv', visited⟩ := inv₂.close_root examining complete valid' last stack' roots'
        refine ⟨_, ?_, inv', visited⟩
        simp only [dfs, assigned, ↓reduceIte, opened, explored, closed, bind, Except.bind]
        rfl
      · have closed := Scc.closeNode_other within last isRoot
        refine ⟨_, ?_, inv₂.close_empty, examining.stay complete last isRoot⟩
        simp only [dfs, assigned, ↓reduceIte, opened, explored, closed, bind, Except.bind,
          List.append_nil]
        rfl

theorem process_explores (closedUnder : ∀ u ∈ nodes, ∀ v ∈ edges u, v ∈ nodes) {fuel : Nat}
    (enough : nodes.card < fuel) (starts : List ν) (inside : ∀ start ∈ starts, start ∈ nodes) :
    ∀ s : Search ν, Inv edges s → s.finder.open_ = [] →
      ∃ s', process edges fuel starts s = .ok s' ∧ Inv edges s' ∧ s'.finder.open_ = [] ∧
        (∀ v ∈ s.assigned, v ∈ s'.assigned) ∧ ∀ start ∈ starts, start ∈ s'.assigned := by
  induction starts with
  | nil => intro s inv idle; exact ⟨s, rfl, inv, idle, by simp, by simp⟩
  | cons start rest ih =>
    intro s inv idle
    obtain ⟨s₁, first, inv₁, visited⟩ := dfs_explores closedUnder fuel s start inv
      (inside start (by simp)) (by simp [idle])
      (Nat.lt_of_le_of_lt (Config.pending_le_card _ _) enough)
    have idle₁ : s₁.finder.open_ = [] := visited.opened_nil inv.valid.stacked idle
    obtain ⟨s₂, others, inv₂, idle₂, kept, reached⟩ := ih
      (fun v present => inside v (by simp [present])) s₁ inv₁ idle₁
    refine ⟨s₂, ?_, inv₂, idle₂, fun v old => kept v (visited.grows.closed v old), ?_⟩
    · rw [process, List.foldlM_cons, first]
      exact others
    · intro v present
      rcases List.mem_cons.mp present with rfl | present
      · rcases visited.settled with assigned | ⟨i, at_, _⟩
        · exact kept v assigned
        · change s₁.finder.open_[i]? = some v at at_
          simp [idle₁] at at_
      · exact reached v present

/-- The search from any starts returns every reachable node in exactly one call
of `Close`, each non-empty answer being one class of mutual reachability, leaves
first, and leaves the finder empty after each top-level search. -/
theorem process_finds_components (edges : ν → List ν) (nodes : Finset ν)
    (closedUnder : ∀ u ∈ nodes, ∀ v ∈ edges u, v ∈ nodes) (starts : List ν)
    (inside : ∀ start ∈ starts, start ∈ nodes) (fuel : Nat) (enough : nodes.card < fuel) :
    ∃ s : Search ν, process edges fuel starts {} = .ok s ∧
      (∀ start ∈ starts, ∀ v, ReflTransGen (Edge edges) start v →
        ∃! i, s.ReturnedBy i v) ∧
      s.closes.flatten.Nodup ∧
      (∀ component ∈ s.closes, ∀ u ∈ component, ∀ v,
        v ∈ component ↔ Connected edges u v) ∧
      (∀ i component, s.closes[i]? = some component → ∀ u ∈ component, ∀ v ∈ edges u,
        v ∈ component ∨ ∃ j < i, s.ReturnedBy j v) ∧
      ∀ done, done <+: starts →
        ∃ s' : Search ν, process edges fuel done {} = .ok s' ∧ s'.finder.empty := by
  obtain ⟨s, run, inv, idle, _, reached⟩ :=
    process_explores closedUnder enough starts inside {} (Inv.new edges) rfl
  have assignedReach : ∀ u v, ReflTransGen (Edge edges) u v → u ∈ s.assigned → v ∈ s.assigned := by
    intro u v path assigned
    induction path with
    | refl => exact assigned
    | tail _ edge ih => exact inv.walk.closedEdge _ _ ih edge
  refine ⟨s, run, ?_, inv.assigned ▸ inv.nodup, inv.classes, ?_, ?_⟩
  · intro start among v path
    have present := assignedReach start v path (reached start among)
    rw [inv.assigned] at present
    obtain ⟨component, among', present⟩ := List.mem_flatten.mp present
    obtain ⟨i, at_⟩ := List.mem_iff_getElem?.mp among'
    refine ⟨i, ⟨component, at_, present⟩, ?_⟩
    rintro j ⟨other, atJ, presentJ⟩
    exact call_unique (inv.assigned ▸ inv.nodup) atJ at_ presentJ present
  · intro i component at_ u present v edge
    rcases inv.leavesFirst i component at_ u present v edge with earlier | same
    · exact Or.inr (mem_flatten_take earlier)
    · exact Or.inl same
  · intro done isPrefix
    obtain ⟨s', run', inv', idle', _⟩ := process_explores closedUnder enough done
      (fun start among => inside start (isPrefix.subset among)) {} (Inv.new edges) rfl
    exact ⟨s', run', inv'.valid.empty_iff.mpr idle'⟩

/-- A cycle of two nodes with a way out, searched from both ends. -/
theorem process_finds_components_cycle :
    let edges : Nat → List Nat := fun v => if v = 0 then [1] else if v = 1 then [2, 0] else []
    ∃ s : Search Nat, process edges 4 [0, 2] {} = .ok s ∧
      ∃! i, s.ReturnedBy i 2 := by
  intro edges
  obtain ⟨s, run, once, _⟩ := process_finds_components edges {0, 1, 2}
    (by decide) [0, 2] (by decide) 4 (by decide)
  exact ⟨s, run, once 2 (by simp) 2 .refl⟩

end Runs

end Search

end Stg
