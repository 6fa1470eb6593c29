import Stg.Error
import Stg.Lib.PathScc
import Mathlib.Data.List.AList

set_option autoImplicit false

namespace Stg

open PathScc (Stacked Config)

/-- The component finder: open nodes in order, the inverse map, and the indices
of the nodes that can still be the root of their component. -/
structure Scc (ν : Type) where
  open_ : List ν := []
  isOpen : AList (fun _ : ν => Nat) := ∅
  rootIndex : List Nat := []

namespace Scc

variable {ν : Type}

def empty (s : Scc ν) : Prop :=
  s.open_ = [] ∧ s.isOpen = ∅ ∧ s.rootIndex = []

variable [DecidableEq ν]

def openNode (s : Scc ν) (node : ν) : Except Error (Option Nat × Scc ν) :=
  match s.isOpen.lookup node with
  | some ix =>
    let rootIndex := s.rootIndex.rdropWhile (fun root => decide (ix < root))
    -- the loop reads `back` of an empty vector once every root is popped
    if rootIndex.isEmpty then .error .undefined
    else .ok (none, { s with rootIndex })
  | none =>
    let ix := s.isOpen.entries.length
    .ok (some ix, {
      open_ := s.open_ ++ [node]
      isOpen := s.isOpen.insert node ix
      rootIndex := s.rootIndex ++ [ix] })

def closeNode (s : Scc ν) (ix : Nat) : Except Error (List ν × Scc ν) := do
  check (decide (ix < s.open_.length)) "internal error: illegal SCC node index"
  match s.rootIndex.getLast? with
  | none => .error .undefined
  | some root =>
    if ix = root then
      let scc := s.open_.drop ix
      pure (scc, {
        open_ := s.open_.take ix
        isOpen := scc.foldl (fun isOpen node => isOpen.erase node) s.isOpen
        rootIndex := s.rootIndex.dropLast })
    else
      pure ([], s)

/-- The two stacks are well shaped and the map is the inverse of the node stack. -/
structure Valid (s : Scc ν) : Prop where
  stacked : Stacked s.open_ s.rootIndex
  indexed : ∀ v i, s.isOpen.lookup v = some i ↔ s.open_[i]? = some v

theorem Valid.new : Valid ({} : Scc ν) where
  stacked := ⟨List.nodup_nil, List.Pairwise.nil, by simp, by simp⟩
  indexed := by simp

variable {s : Scc ν} {node : ν} {ix : Nat}

theorem Valid.mem_keys (valid : s.Valid) (v : ν) : v ∈ s.isOpen.keys ↔ v ∈ s.open_ := by
  rw [← AList.mem_keys, ← AList.lookup_isSome, Option.isSome_iff_exists, List.mem_iff_getElem?]
  exact exists_congr (valid.indexed v)

theorem Valid.size (valid : s.Valid) : s.isOpen.entries.length = s.open_.length := by
  have perm : s.isOpen.keys.Perm s.open_ :=
    (List.perm_ext_iff_of_nodup s.isOpen.keys_nodup valid.stacked.nodup).mpr valid.mem_keys
  simpa [AList.keys, List.keys] using perm.length_eq

theorem Valid.lookup_none (valid : s.Valid) : s.isOpen.lookup node = none ↔ node ∉ s.open_ := by
  rw [AList.lookup_eq_none, ← valid.mem_keys node, AList.mem_keys]

/-- Opening a node that is not open records it as a potential root. -/
theorem Valid.openNode_fresh (valid : s.Valid) (fresh : node ∉ s.open_) :
    ∃ s', s.openNode node = .ok (some s.open_.length, s') ∧ s'.Valid ∧
      s'.open_ = s.open_ ++ [node] ∧ s'.rootIndex = s.rootIndex ++ [s.open_.length] := by
  refine ⟨⟨s.open_ ++ [node], s.isOpen.insert node s.open_.length,
    s.rootIndex ++ [s.open_.length]⟩, ?_, ⟨valid.stacked.push fresh, ?_⟩, rfl, rfl⟩
  · simp only [openNode, valid.lookup_none.mpr fresh, valid.size]
  · intro v i
    by_cases same : v = node
    · subst same
      rw [AList.lookup_insert, List.getElem?_append, List.getElem?_singleton]
      constructor
      · intro equal
        cases equal
        simp
      · intro at_
        split at at_
        · exact absurd (List.mem_of_getElem? at_) fresh
        · split at at_
          · congr 1
            omega
          · cases at_
    · rw [AList.lookup_insert_ne same, valid.indexed v i]
      constructor
      · intro at_
        exact PathScc.getElem?_keep (List.prefix_append _ _) at_
      · intro at_
        rw [List.getElem?_append, List.getElem?_singleton] at at_
        split at at_
        · exact at_
        · split at at_
          · exact absurd (Option.some.inj at_).symm same
          · cases at_

/-- Opening an open node only pops roots, and never the last one. -/
theorem Valid.openNode_open (valid : s.Valid) (at_ : s.open_[ix]? = some node) :
    s.openNode node = .ok (none, { s with
        rootIndex := s.rootIndex.rdropWhile (fun root => decide (ix < root)) }) ∧
      Valid { s with rootIndex := s.rootIndex.rdropWhile (fun root => decide (ix < root)) } := by
  have nonempty : s.open_ ≠ [] := List.ne_nil_of_mem (List.mem_of_getElem? at_)
  have zero := (valid.stacked.collapse ix).first nonempty
  refine ⟨?_, valid.stacked.collapse ix, valid.indexed⟩
  simp only [openNode, (valid.indexed node ix).mpr at_, List.isEmpty_iff,
    List.ne_nil_of_mem zero, ↓reduceIte]

theorem lookup_foldl_erase (nodes : List ν) (isOpen : AList (fun _ : ν => Nat)) (v : ν) :
    (nodes.foldl (fun isOpen node => isOpen.erase node) isOpen).lookup v =
      if v ∈ nodes then none else isOpen.lookup v := by
  induction nodes generalizing isOpen with
  | nil => simp
  | cons node rest ih =>
    rw [List.foldl_cons, ih]
    by_cases same : v = node
    · subst same
      simp
    · simp [same, AList.lookup_erase_ne same]

/-- Closing the last potential root returns the nodes from it on. -/
theorem Valid.closeNode_root (valid : s.Valid) (last : s.rootIndex.getLast? = some ix) :
    ∃ s', s.closeNode ix = .ok (s.open_.drop ix, s') ∧ s'.Valid ∧
      s'.open_ = s.open_.take ix ∧ s'.rootIndex = s.rootIndex.dropLast := by
  have inside := valid.stacked.inside ix (PathScc.le_getLast valid.stacked.sorted last).1
  refine ⟨⟨s.open_.take ix, (s.open_.drop ix).foldl (fun isOpen node => isOpen.erase node) s.isOpen,
    s.rootIndex.dropLast⟩, ?_, ⟨valid.stacked.finish last, ?_⟩, rfl, rfl⟩
  · simp [closeNode, check, inside, last]
    rfl
  · intro v i
    rw [lookup_foldl_erase, List.getElem?_take]
    by_cases segment : v ∈ s.open_.drop ix
    · rw [if_pos segment]
      constructor
      · intro impossible
        cases impossible
      · intro at_
        split at at_
        · rename_i below
          have early : v ∈ s.open_.take ix :=
            List.mem_of_getElem? (by rw [List.getElem?_take_of_lt below]; exact at_)
          exact absurd segment
            (List.disjoint_take_drop valid.stacked.nodup (Nat.le_refl ix) early)
        · cases at_
    · rw [if_neg segment, valid.indexed v i]
      by_cases below : i < ix
      · rw [if_pos below]
      · rw [if_neg below]
        refine ⟨fun at_ => absurd ?_ segment, fun impossible => by cases impossible⟩
        refine List.mem_iff_getElem?.mpr ⟨i - ix, ?_⟩
        rw [List.getElem?_drop, Nat.add_sub_cancel' (Nat.le_of_not_lt below)]
        exact at_

/-- Closing any other open node returns nothing and changes nothing. -/
theorem closeNode_other (inside : ix < s.open_.length) {root : Nat}
    (last : s.rootIndex.getLast? = some root) (other : root ≠ ix) :
    s.closeNode ix = .ok ([], s) := by
  simp [closeNode, check, inside, last, Ne.symm other]
  rfl

/-- The traversal state the finder stands for, given which nodes are assigned. -/
def config (s : Scc ν) (closed : ν → Prop) : Config ν :=
  ⟨closed, s.open_, s.rootIndex⟩

theorem Valid.empty_iff (valid : s.Valid) : s.empty ↔ s.open_ = [] := by
  refine ⟨And.left, fun none => ⟨none, ?_, ?_⟩⟩
  · apply AList.ext
    apply List.eq_nil_of_length_eq_zero
    rw [valid.size, none]
    rfl
  · exact valid.stacked.no_roots.mp none

end Scc

end Stg
