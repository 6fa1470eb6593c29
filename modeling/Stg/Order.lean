import Stg.Error
import Mathlib.Data.List.Sort
import Mathlib.Data.List.InsertIdx
import Mathlib.Data.Prod.Lex
import Mathlib.Data.Finset.Card
import Mathlib.Data.Finset.Range
import Mathlib.Logic.Equiv.Basic

set_option autoImplicit false

namespace Stg

/-- One value of the second ordering; the number is where the next new value goes. -/
def extendStep {α : Type} [DecidableEq α] (state : List α × Nat) (value : α) : List α × Nat :=
  let (indexes1, pos) := state
  match indexes1.idxOf? value with
  | none => (indexes1.insertIdx pos value, pos + 1)
  | some found => if pos ≤ found then (indexes1, found + 1) else (indexes1, pos)

def extendOrder {α : Type} [DecidableEq α] (indexes1 indexes2 : List α) : List α :=
  (indexes2.foldl extendStep (indexes1, 0)).1

def swapAt {α : Type} (data : List α) (i j : Nat) : List α :=
  match data[i]?, data[j]? with
  | some x, some y => (data.set i y).set j x
  | _, _ => data

/-- The inner loop of `Permute`, entered at `to`. A cycle meets each index at most
once, so with more steps than indices it only runs out if it would never end. -/
def permuteCycle {α : Type} (from_ : Nat) :
    Nat → Nat → List α → List Nat → Except Error (List α × List Nat)
  | 0, _, _, _ => .error .outOfFuel
  | fuel + 1, to_, data, permutation =>
    match permutation[to_]? with
    | none => .error .undefined
    | some next =>
      if next = from_ then pure (data, permutation.set to_ to_)
      else do
        check (decide (next < permutation.length)) "internal error: bad Permute index"
        permuteCycle from_ fuel next (swapAt data to_ next) (permutation.set to_ to_)

def permute {α : Type} (data : List α) (permutation : List Nat) :
    Except Error (List α × List Nat) := do
  let size := permutation.length
  check (decide (data.length = size)) "internal error: bad Permute vectors"
  (List.range size).foldlM
    (fun (state : List α × List Nat) from_ =>
      permuteCycle from_ (size + 1) from_ state.1 state.2)
    (data, permutation)

section

variable {ι : Type} [LinearOrder ι]

/-- The indices of the items that have a position, in the order of the positions. -/
def indexesBy (positions : List (Option ι)) : List Nat :=
  ((positions.zipIdx.filterMap fun item => item.1.map (·, item.2)).insertionSort
    fun a b => toLex a ≤ toLex b).map (·.2)

def reorder (data : List (Option ι × Option ι)) : Except Error (List (Option ι × Option ι)) := do
  data.forM fun item => check (item.1.isSome || item.2.isSome)
    "internal error: Reorder constraint with no positions"
  let indexes1 := indexesBy (data.map (·.1))
  let indexes2 := indexesBy (data.map (·.2))
  let (data, _) ← permute data (extendOrder indexes1 indexes2)
  pure data

end

section ExtendOrder

variable {α : Type} [DecidableEq α]

theorem extendStep_spec (indexes1 : List α) (pos : Nat) (value : α)
    (nodup : indexes1.Nodup) (inside : pos ≤ indexes1.length) :
    (extendStep (indexes1, pos) value).1.Nodup ∧
      (extendStep (indexes1, pos) value).2 ≤ (extendStep (indexes1, pos) value).1.length ∧
      ∀ x, x ∈ (extendStep (indexes1, pos) value).1 ↔ x ∈ indexes1 ∨ x = value := by
  unfold extendStep
  dsimp only
  split
  · rename_i missing
    have fresh : value ∉ indexes1 := List.idxOf?_eq_none_iff.mp missing
    have perm := List.perm_insertIdx value indexes1 inside
    refine ⟨perm.nodup_iff.mpr (List.nodup_cons.mpr ⟨fresh, nodup⟩), ?_, ?_⟩
    · rw [List.length_insertIdx, if_pos inside]
      omega
    · intro x
      rw [perm.mem_iff, List.mem_cons, or_comm]
  · rename_i found at_
    have present : value ∈ indexes1 := by
      by_contra absent
      rw [List.idxOf?_eq_none_iff.mpr absent] at at_
      cases at_
    have bound : found < indexes1.length := by
      rw [List.idxOf?, List.findIdx?_eq_some_iff_findIdx_eq] at at_
      exact at_.1
    have same : ∀ x, x ∈ indexes1 ↔ x ∈ indexes1 ∨ x = value := fun x =>
      ⟨Or.inl, fun either => either.elim id (fun equal => equal ▸ present)⟩
    split
    · exact ⟨nodup, bound, same⟩
    · exact ⟨nodup, inside, same⟩

theorem foldl_extendStep_spec (indexes2 : List α) :
    ∀ (indexes1 : List α) (pos : Nat), indexes1.Nodup → pos ≤ indexes1.length →
      (indexes2.foldl extendStep (indexes1, pos)).1.Nodup ∧
        ∀ x, x ∈ (indexes2.foldl extendStep (indexes1, pos)).1 ↔ x ∈ indexes1 ∨ x ∈ indexes2 := by
  induction indexes2 with
  | nil => intro indexes1 pos nodup _; simpa using nodup
  | cons value rest ih =>
    intro indexes1 pos nodup inside
    obtain ⟨nodup', inside', mem'⟩ := extendStep_spec indexes1 pos value nodup inside
    obtain ⟨nodup'', mem''⟩ := ih _ _ nodup' inside'
    refine ⟨nodup'', fun x => ?_⟩
    rw [List.foldl_cons, mem'', mem', List.mem_cons, or_assoc]

/-- Every element of either ordering occurs exactly once in the extended one. -/
theorem extendOrder_spec (indexes1 indexes2 : List α) (nodup : indexes1.Nodup) :
    (extendOrder indexes1 indexes2).Nodup ∧
      ∀ x, x ∈ extendOrder indexes1 indexes2 ↔ x ∈ indexes1 ∨ x ∈ indexes2 :=
  foldl_extendStep_spec indexes2 indexes1 0 nodup (Nat.zero_le _)

end ExtendOrder

section Permute

variable {α : Type}

theorem length_swapAt (data : List α) (i j : Nat) : (swapAt data i j).length = data.length := by
  unfold swapAt
  split <;> simp

theorem getElem?_swapAt (data : List α) {i j : Nat} (insideI : i < data.length)
    (insideJ : j < data.length) (k : Nat) :
    (swapAt data i j)[k]? = data[Equiv.swap i j k]? := by
  simp only [swapAt, List.getElem?_eq_getElem insideI, List.getElem?_eq_getElem insideJ,
    List.getElem?_set, Equiv.swap_apply_def, List.length_set]
  by_cases atJ : k = j
  · subst atJ
    by_cases same : k = i
    · subst same
      simp [insideI]
    · simp [same, insideI, insideJ]
  · by_cases atI : k = i
    · subst atI
      simp [Ne.symm atJ, insideI, insideJ]
    · simp [Ne.symm atJ, Ne.symm atI, atI, atJ]

/-- `data` read through the permutation `π` is the wanted result, and the vector
holds `π`. -/
structure Permuting (size : Nat) (π : Nat → Nat) (target data : List α)
    (permutation : List Nat) : Prop where
  length : data.length = size
  into : ∀ i < size, π i < size
  injective : ∀ i < size, ∀ j < size, π i = π j → i = j
  goal : ∀ i < size, data[π i]? = target[i]?
  entry : ∀ i < size, permutation[i]? = some (π i)

/-- Inside the loop of a cycle the vector differs from `π` in one place: what
should point to `to_` still points to the start of the cycle. -/
structure Resolving (size from_ to_ : Nat) (π : Nat → Nat) (target data : List α)
    (permutation : List Nat) : Prop where
  length : data.length = size
  into : ∀ i < size, π i < size
  injective : ∀ i < size, ∀ j < size, π i = π j → i = j
  goal : ∀ i < size, data[π i]? = target[i]?
  entry : ∀ i < size, permutation[i]? = some (if π i = to_ then from_ else π i)
  start : from_ < size
  here : to_ < size
  back : to_ ≠ from_ → π from_ = from_

variable {size from_ to_ : Nat} {π : Nat → Nat} {target data : List α} {permutation : List Nat}

theorem Permuting.enter (permuting : Permuting size π target data permutation)
    (start : from_ < size) : Resolving size from_ from_ π target data permutation where
  length := permuting.length
  into := permuting.into
  injective := permuting.injective
  goal := permuting.goal
  entry := by
    intro i inside
    rw [permuting.entry i inside]
    split
    · rename_i equal
      rw [equal]
    · rfl
  start := start
  here := start
  back := fun different => absurd rfl different

/-- One swap: `to_` gets its datum and the hole moves along the cycle. -/
theorem Resolving.step (resolving : Resolving size from_ to_ π target data permutation)
    (more : π to_ ≠ to_) (other : π to_ ≠ from_) :
    Resolving size from_ (π to_) (fun i => Equiv.swap to_ (π to_) (π i)) target
      (swapAt data to_ (π to_)) (permutation.set to_ to_) where
  length := by rw [length_swapAt, resolving.length]
  into := by
    intro i inside
    have bound := resolving.into to_ resolving.here
    have here := resolving.here
    have image := resolving.into i inside
    simp only [Equiv.swap_apply_def]
    split
    · exact bound
    · split <;> assumption
  injective := by
    intro i insideI j insideJ equal
    exact resolving.injective i insideI j insideJ ((Equiv.swap to_ (π to_)).injective equal)
  goal := by
    intro i inside
    rw [getElem?_swapAt data (resolving.length ▸ resolving.here)
      (resolving.length ▸ resolving.into to_ resolving.here), Equiv.swap_apply_self]
    exact resolving.goal i inside
  entry := by
    intro i inside
    have held := resolving.entry i inside
    have bound := (List.getElem?_eq_some_iff.mp held).1
    rw [List.getElem?_set]
    by_cases same : to_ = i
    · subst same
      simp [bound, more.symm]
    · have apart : π i ≠ π to_ := fun equal =>
        same (resolving.injective i inside to_ resolving.here equal).symm
      rw [if_neg same, held]
      by_cases hole : π i = to_
      · simp [hole]
      · simp [hole, apart, Equiv.swap_apply_of_ne_of_ne hole apart]
  start := resolving.start
  here := resolving.into to_ resolving.here
  back := by
    intro _
    by_cases first : to_ = from_
    · subst first
      simp
    · rw [resolving.back first]
      exact Equiv.swap_apply_of_ne_of_ne (Ne.symm first) other.symm

/-- The cycle is complete when the vector leads back to its start. -/
theorem Resolving.exit (resolving : Resolving size from_ to_ π target data permutation)
    (last : permutation[to_]? = some from_) :
    π to_ = to_ ∧ π from_ = from_ ∧
      Permuting size π target data (permutation.set to_ to_) := by
  have fixed : π to_ = to_ := by
    by_contra moved
    rw [resolving.entry to_ resolving.here, if_neg moved, Option.some.injEq] at last
    by_cases first : to_ = from_
    · exact moved (last.trans first.symm)
    · exact first (resolving.injective to_ resolving.here from_ resolving.start
        (last.trans (resolving.back first).symm))
  refine ⟨fixed, ?_, resolving.length, resolving.into, resolving.injective, resolving.goal, ?_⟩
  · by_cases first : to_ = from_
    · exact first ▸ fixed
    · exact resolving.back first
  · intro i inside
    have held := resolving.entry i inside
    have bound := (List.getElem?_eq_some_iff.mp held).1
    rw [List.getElem?_set]
    by_cases same : to_ = i
    · subst same
      simp [bound, fixed]
    · have apart : π i ≠ to_ := fun equal => same
        (resolving.injective i inside to_ resolving.here (equal.trans fixed.symm)).symm
      rw [if_neg same, held, if_neg apart]

def misplaced (size : Nat) (π : Nat → Nat) : Nat :=
  ((Finset.range size).filter fun i => π i ≠ i).card

theorem misplaced_le (size : Nat) (π : Nat → Nat) : misplaced size π ≤ size :=
  (Finset.card_filter_le _ _).trans (Nat.le_of_eq (Finset.card_range size))

theorem Resolving.fixed_step (resolving : Resolving size from_ to_ π target data permutation)
    (more : π to_ ≠ to_) (i : Nat) (inside : i < size) (fixed : π i = i) :
    Equiv.swap to_ (π to_) (π i) = i := by
  have notHere : i ≠ to_ := fun equal => more (equal ▸ fixed)
  have notNext : i ≠ π to_ := fun equal =>
    notHere (resolving.injective i inside to_ resolving.here (fixed.trans equal))
  rw [fixed, Equiv.swap_apply_of_ne_of_ne notHere notNext]

theorem Resolving.misplaced_lt (resolving : Resolving size from_ to_ π target data permutation)
    (more : π to_ ≠ to_) :
    misplaced size (fun i => Equiv.swap to_ (π to_) (π i)) < misplaced size π := by
  apply Finset.card_lt_card
  refine ⟨?_, fun subset => ?_⟩
  · intro i present
    rw [Finset.mem_filter, Finset.mem_range] at present ⊢
    exact ⟨present.1, fun fixed => present.2 (resolving.fixed_step more i present.1 fixed)⟩
  · have present := subset (Finset.mem_filter.mpr ⟨Finset.mem_range.mpr resolving.here, more⟩)
    exact (Finset.mem_filter.mp present).2 (by simp)

theorem permuteCycle_spec (fuel : Nat) :
    ∀ (to_ : Nat) (π : Nat → Nat) (data : List α) (permutation : List Nat),
      Resolving size from_ to_ π target data permutation → misplaced size π < fuel →
      permutation.length = size →
      ∃ π' data' permutation', permuteCycle from_ fuel to_ data permutation =
          .ok (data', permutation') ∧ Permuting size π' target data' permutation' ∧
        permutation'.length = size ∧ π' from_ = from_ ∧ ∀ i < size, π i = i → π' i = i := by
  induction fuel with
  | zero => intro to_ π data permutation _ bound; exact absurd bound (Nat.not_lt_zero _)
  | succ fuel ih =>
    intro to_ π data permutation resolving bound length
    have held := resolving.entry to_ resolving.here
    unfold permuteCycle
    by_cases last : permutation[to_]? = some from_
    · obtain ⟨_, back, permuting⟩ := resolving.exit last
      exact ⟨π, data, permutation.set to_ to_, by simp [last]; rfl,
        permuting, by simpa using length,
        back, fun _ _ fixed => fixed⟩
    · have more : π to_ ≠ to_ := by
        intro fixed
        rw [if_pos fixed] at held
        exact last held
      rw [if_neg more] at held
      have other : π to_ ≠ from_ := fun equal => last (equal ▸ held)
      have next := resolving.into to_ resolving.here
      obtain ⟨π', data', permutation', run, permuting, length', back, fixed⟩ := ih (π to_) _ _ _
        (resolving.step more other) (by have := resolving.misplaced_lt more; omega)
        (by simpa using length)
      refine ⟨π', data', permutation', ?_, permuting, length', back, ?_⟩
      · simp only [held, other, ↓reduceIte, check, length, next, decide_true]
        exact run
      · intro i inside still
        exact fixed i inside (resolving.fixed_step more i inside still)

theorem foldlM_permuteCycle_spec (size : Nat) (target : List α) (starts : List Nat)
    (inside : ∀ i ∈ starts, i < size) :
    ∀ (π : Nat → Nat) (data : List α) (permutation : List Nat),
      Permuting size π target data permutation → permutation.length = size →
      ∃ π' data' permutation', starts.foldlM (fun (state : List α × List Nat) from_ =>
          permuteCycle from_ (size + 1) from_ state.1 state.2) (data, permutation) =
          (.ok (data', permutation') : Except Error _) ∧
        Permuting size π' target data' permutation' ∧ permutation'.length = size ∧
        (∀ i < size, π i = i → π' i = i) ∧ ∀ i ∈ starts, π' i = i := by
  induction starts with
  | nil =>
    intro π data permutation permuting length
    exact ⟨π, data, permutation, rfl, permuting, length, fun _ _ fixed => fixed, by simp⟩
  | cons from_ rest ih =>
    intro π data permutation permuting length
    obtain ⟨π₁, data₁, permutation₁, first, permuting₁, length₁, back, kept⟩ :=
      permuteCycle_spec (size + 1) from_ π data permutation
        (permuting.enter (inside from_ (by simp)))
        (Nat.lt_succ_of_le (misplaced_le size π)) length
    obtain ⟨π₂, data₂, permutation₂, others, permuting₂, length₂, kept₂, fixed₂⟩ :=
      ih (fun i present => inside i (by simp [present])) π₁ data₁ permutation₁ permuting₁ length₁
    refine ⟨π₂, data₂, permutation₂, ?_, permuting₂, length₂,
      fun i below fixed => kept₂ i below (kept i below fixed), ?_⟩
    · rw [List.foldlM_cons, first]
      exact others
    · intro i present
      rcases List.mem_cons.mp present with rfl | present
      · exact kept₂ i (inside i (by simp)) back
      · exact fixed₂ i present

theorem getElem?_filterMap {β : Type} (f : Nat → Option β) (l : List Nat)
    (total : ∀ i ∈ l, (f i).isSome) (k : Nat) : (l.filterMap f)[k]? = l[k]?.bind f := by
  induction l generalizing k with
  | nil => simp
  | cons head rest ih =>
    obtain ⟨value, defined⟩ := Option.isSome_iff_exists.mp (total head (by simp))
    rw [List.filterMap_cons_some defined]
    cases k with
    | zero => simp [defined]
    | succ k => simpa using ih (fun i present => total i (by simp [present])) k

/-- `Permute` puts `data[permutation[i]]` at every `i` and leaves the identity behind. -/
theorem permute_spec (data : List α) (permutation : List Nat)
    (perm : permutation.Perm (List.range data.length)) :
    permute data permutation =
      .ok (permutation.filterMap (data[·]?), List.range data.length) := by
  have length : permutation.length = data.length := by simpa using perm.length_eq
  have below : ∀ i ∈ permutation, i < data.length := fun i present =>
    List.mem_range.mp (perm.mem_iff.mp present)
  have nodup : permutation.Nodup := perm.nodup_iff.mpr List.nodup_range
  have total : ∀ i ∈ permutation, (data[i]?).isSome := by
    intro i present
    simp [below i present]
  have entry : ∀ i < data.length, permutation[i]? = some (permutation.getD i 0) := by
    intro i inside
    rw [← length] at inside
    simp [inside]
  have initial : Permuting data.length (fun i => permutation.getD i 0)
      (permutation.filterMap (data[·]?)) data permutation := by
    refine ⟨rfl, ?_, ?_, ?_, entry⟩
    · intro i inside
      exact below _ (List.mem_of_getElem? (entry i inside))
    · intro i insideI j insideJ equal
      have atI := entry i insideI
      have atJ := entry j insideJ
      rw [← equal] at atJ
      rw [← length] at insideI insideJ
      rw [List.getElem?_eq_some_iff] at atI atJ
      obtain ⟨_, atI⟩ := atI
      obtain ⟨_, atJ⟩ := atJ
      exact (List.Nodup.getElem_inj_iff nodup).mp (atI.trans atJ.symm)
    · intro i inside
      rw [getElem?_filterMap _ _ total, entry i inside]
      rfl
  obtain ⟨π, data', permutation', run, permuting, length', _, fixed⟩ :=
    foldlM_permuteCycle_spec data.length _ (List.range data.length)
      (fun i present => List.mem_range.mp present) _ _ _ initial length
  have identity : ∀ i < data.length, π i = i := fun i inside =>
    fixed i (List.mem_range.mpr inside)
  have dataEq : data' = permutation.filterMap (data[·]?) := by
    apply List.ext_getElem?
    intro i
    by_cases inside : i < data.length
    · rw [← permuting.goal i inside, identity i inside]
    · rw [List.getElem?_eq_none (by rw [permuting.length]; omega),
        getElem?_filterMap _ _ total, List.getElem?_eq_none (by omega)]
      rfl
  have permutationEq : permutation' = List.range data.length := by
    apply List.ext_getElem?
    intro i
    by_cases inside : i < data.length
    · rw [permuting.entry i inside, identity i inside, List.getElem?_range inside]
    · rw [List.getElem?_eq_none (by omega), List.getElem?_eq_none (by simpa using inside)]
  rw [dataEq, permutationEq] at run
  simp only [permute, check, length, decide_true, ↓reduceIte]
  exact run

theorem range_filterMap_getElem? {β : Type} (data : List β) :
    (List.range data.length).filterMap (data[·]?) = data := by
  apply List.ext_getElem?
  intro i
  rw [getElem?_filterMap _ _ (by simp)]
  by_cases inside : i < data.length
  · rw [List.getElem?_range inside]
    rfl
  · rw [List.getElem?_eq_none (by simpa using inside), List.getElem?_eq_none (by omega)]
    rfl

/-- `Permute` sorts out every cycle of a permutation without tripping its checks. -/
theorem permute_applies (data : List α) (permutation : List Nat)
    (perm : permutation.Perm (List.range data.length)) :
    ∃ data' : List α, permute data permutation = .ok (data', List.range data.length) ∧
      data'.length = data.length ∧
      ∀ i : Nat, data'[i]? = permutation[i]?.bind fun index => data[index]? := by
  have below : ∀ i ∈ permutation, i < data.length := fun i present =>
    List.mem_range.mp (perm.mem_iff.mp present)
  have total : ∀ i ∈ permutation, (data[i]?).isSome := by
    intro i present
    simp [below i present]
  refine ⟨_, permute_spec data permutation perm, ?_, ?_⟩
  · have lengths := (perm.filterMap (data[·]?)).length_eq
    rw [lengths, range_filterMap_getElem?]
  · intro i
    exact getElem?_filterMap _ _ total i

theorem permute_applies_cycle :
    ∃ data' : List String, permute ["emily", "george", "rose", "ted"] [2, 1, 3, 0] =
        .ok (data', [0, 1, 2, 3]) ∧ data'[2]? = some "ted" := by
  obtain ⟨data', run, _, entries⟩ :=
    permute_applies ["emily", "george", "rose", "ted"] [2, 1, 3, 0] (by decide)
  exact ⟨data', run, entries 2⟩

end Permute

section Reorder

variable {ι : Type} [LinearOrder ι]

theorem mem_indexesBy (positions : List (Option ι)) (i : Nat) :
    i ∈ indexesBy positions ↔ ∃ position, positions[i]? = some (some position) := by
  simp only [indexesBy, List.mem_map, List.mem_insertionSort, List.mem_filterMap, Prod.exists,
    List.mk_mem_zipIdx_iff_getElem?, Option.map_eq_some_iff, Prod.mk.injEq]
  constructor
  · rintro ⟨position, index, ⟨held, _, at_, _, rfl, rfl, rfl⟩, rfl⟩
    exact ⟨_, at_⟩
  · rintro ⟨position, at_⟩
    exact ⟨position, i, ⟨some position, i, at_, position, rfl, rfl, rfl⟩, rfl⟩

theorem nodup_indexesBy (positions : List (Option ι)) : (indexesBy positions).Nodup := by
  have sorted := List.perm_insertionSort (fun a b : ι × Nat => toLex a ≤ toLex b)
    (positions.zipIdx.filterMap fun item => item.1.map (·, item.2))
  have indices : ((positions.zipIdx.filterMap fun item => item.1.map (·, item.2)).map (·.2)) =
      (positions.zipIdx.filter fun item => item.1.isSome).map (·.2) := by
    induction positions.zipIdx with
    | nil => rfl
    | cons item rest ih =>
      obtain ⟨position, index⟩ := item
      cases position with
      | none => simpa using ih
      | some position => simpa using ih
  rw [indexesBy, (sorted.map _).nodup_iff, indices]
  refine (List.nodup_range (n := positions.length)).sublist ?_
  have whole : positions.zipIdx.map (·.2) = List.range positions.length := by
    rw [List.zipIdx_map_snd, List.range_eq_range']
  rw [← whole]
  exact (List.filter_sublist).map _

theorem extendOrder_indexes (data : List (Option ι × Option ι))
    (positioned : ∀ item ∈ data, item.1.isSome || item.2.isSome) :
    (extendOrder (indexesBy (data.map (·.1))) (indexesBy (data.map (·.2)))).Perm
      (List.range data.length) := by
  obtain ⟨nodup, mem⟩ := extendOrder_spec (indexesBy (data.map (·.1)))
    (indexesBy (data.map (·.2))) (nodup_indexesBy _)
  rw [List.perm_ext_iff_of_nodup nodup List.nodup_range]
  intro i
  rw [mem, mem_indexesBy, mem_indexesBy, List.mem_range]
  simp only [List.getElem?_map, Option.map_eq_some_iff]
  constructor
  · rintro (⟨_, item, at_, _⟩ | ⟨_, item, at_, _⟩) <;>
      exact (List.getElem?_eq_some_iff.mp at_).1
  · intro inside
    have at_ := List.getElem?_eq_getElem inside
    have either := positioned data[i] (List.getElem_mem inside)
    rw [Bool.or_eq_true, Option.isSome_iff_exists, Option.isSome_iff_exists] at either
    exact either.imp (fun ⟨p, held⟩ => ⟨p, _, at_, held⟩) (fun ⟨p, held⟩ => ⟨p, _, at_, held⟩)

theorem reorder_eq (data : List (Option ι × Option ι))
    (positioned : ∀ item ∈ data, item.1.isSome || item.2.isSome) :
    reorder data = .ok ((extendOrder (indexesBy (data.map (·.1)))
      (indexesBy (data.map (·.2)))).filterMap (data[·]?)) := by
  have complete := extendOrder_indexes data positioned
  have checked : (data.forM fun item => check (item.1.isSome || item.2.isSome)
      "internal error: Reorder constraint with no positions") = (.ok () : Except Error Unit) := by
    clear complete
    induction data with
    | nil => rfl
    | cons item rest ih =>
      have head := positioned item (by simp)
      simp only [List.forM, check, head, ↓reduceIte]
      exact ih (fun item present => positioned item (by simp [present]))
  simp only [reorder, checked, permute_spec data _ complete, bind, Except.bind]
  rfl

/-- Whatever the positions, the data comes back rearranged. -/
theorem reorder_spec (data : List (Option ι × Option ι))
    (positioned : ∀ item ∈ data, item.1.isSome || item.2.isSome) :
    ∃ data', reorder data = .ok data' ∧ data'.Perm data := by
  refine ⟨_, reorder_eq data positioned, ?_⟩
  have perm := (extendOrder_indexes data positioned).filterMap (data[·]?)
  rwa [range_filterMap_getElem?] at perm

end Reorder

end Stg
