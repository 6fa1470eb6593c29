import Stg.Build
import Stg.PlanRefines
import Stg.Lib.Entries

set_option autoImplicit false

/- `Symbols::Equals` over two maps of symbols: which keys it takes for removed, added and
common, and what it makes of the answers. -/
namespace Stg

open Emplace (emplace)

/-- The result of `std::string::compare`. -/
def compareStrings (text other : String) : Int :=
  if text < other then -1 else if text = other then 0 else 1

/-- `SymbolKey::compare`, on which the comparison operators of keys rest. -/
def SymbolKey.compare (self other : SymbolKey) : Int :=
  let result := compareStrings self.path other.path
  if result ≠ 0 then result else compareStrings self.name other.name

theorem compareStrings_eq_zero (text other : String) :
    compareStrings text other = 0 ↔ text = other := by
  unfold compareStrings
  split
  · rename_i less
    simp [less.ne]
  · split <;> simp [*]

theorem compareStrings_neg (text other : String) : compareStrings text other < 0 ↔
    text < other := by
  unfold compareStrings
  split
  · simp [*]
  · split <;> simp [*]

theorem SymbolKey.lt_iff (self other : SymbolKey) :
    self < other ↔ self.path < other.path ∨ self.path = other.path ∧ self.name < other.name :=
  Prod.Lex.toLex_lt_toLex

theorem SymbolKey.compare_neg (self other : SymbolKey) : self.compare other < 0 ↔ self < other := by
  rw [SymbolKey.lt_iff, ← compareStrings_neg, ← compareStrings_eq_zero, ← compareStrings_neg]
  unfold SymbolKey.compare
  dsimp only
  split
  · rename_i apart
    simp [apart]
  · rename_i same
    rw [not_not] at same
    simp [same]

theorem SymbolKey.compare_eq_zero (self other : SymbolKey) :
    self.compare other = 0 ↔ self = other := by
  have both : self = other ↔ self.path = other.path ∧ self.name = other.name := by
    cases self
    cases other
    simp
  rw [both, ← compareStrings_eq_zero, ← compareStrings_eq_zero]
  unfold SymbolKey.compare
  dsimp only
  split
  · rename_i apart
    simp [apart]
  · rename_i same
    rw [not_not] at same
    simp [same]

theorem SymbolKey.compare_pos (self other : SymbolKey) : self.compare other > 0 ↔ self > other := by
  have less := SymbolKey.compare_neg self other
  have same := SymbolKey.compare_eq_zero self other
  rcases lt_trichotomy self other with before | equal | after
  · have negative := less.mpr before
    constructor
    · omega
    · intro after
      exact absurd before after.asymm
  · have zero := same.mpr equal
    constructor
    · omega
    · intro after
      exact absurd equal after.ne'
  · have notLess : ¬ self.compare other < 0 := fun negative => after.asymm (less.mp negative)
    have notZero : self.compare other ≠ 0 := fun zero => after.ne' (same.mp zero)
    constructor
    · exact fun _ => after
    · omega

section Sweep

variable {α κ : Type} [LinearOrder κ] {key : α → κ} {xs ys : List α}

theorem filterMap_removedSymbol (ascending1 : (xs.map key).Pairwise (· < ·))
    (ascending2 : (ys.map key).Pairwise (· < ·)) :
    (Sweep.sweep key key xs ys).filterMap removedSymbol =
      xs.filter fun x => key x ∉ ys.map key := by
  induction xs, ys using Sweep.sweep_induction key key with
  | nil ys => simp [removedSymbol]
  | rest x xs ih =>
    have rest := ih ascending1.of_cons ascending2
    simp only [List.map_nil, List.not_mem_nil, not_false_eq_true, decide_true, List.filter_true]
      at rest ⊢
    simpa [removedSymbol] using rest
  | less x xs y ys before ih =>
    have rest := ih ascending1.of_cons ascending2
    have above := Sweep.lt_of_lt_head (ascending2.imp le_of_lt) before
    have alone : key x ∉ (y :: ys).map key := by
      intro present
      obtain ⟨z, among, same⟩ := List.mem_map.mp present
      exact (above z among).ne' same
    rw [Sweep.sweep_less before, List.filterMap_cons,
      List.filter_cons_of_pos (by simpa using alone)]
    exact congrArg (x :: ·) rest
  | greater x xs y ys after ih =>
    have rest := ih ascending1 ascending2.of_cons
    have above := Sweep.lt_of_lt_head (ascending1.imp le_of_lt) after
    rw [Sweep.sweep_greater after, List.filterMap_cons]
    refine Eq.trans rest (List.filter_congr ?_)
    intro z present
    simp [(above z present).ne']
  | equal x xs y ys same ih =>
    have rest := ih ascending1.of_cons ascending2.of_cons
    have above : ∀ z ∈ xs, key y < key z := by
      intro z present
      rw [← same]
      exact List.rel_of_pairwise_cons ascending1 (List.mem_map_of_mem present)
    rw [Sweep.sweep_equal same, List.filterMap_cons,
      List.filter_cons_of_neg (by simp [same])]
    refine Eq.trans rest (List.filter_congr ?_)
    intro z present
    simp [(above z present).ne']

theorem filterMap_addedSymbol (ascending1 : (xs.map key).Pairwise (· < ·))
    (ascending2 : (ys.map key).Pairwise (· < ·)) :
    (Sweep.sweep key key xs ys).filterMap addedSymbol =
      ys.filter fun y => key y ∉ xs.map key := by
  rw [← filterMap_removedSymbol ascending2 ascending1, Sweep.sweep_swap key key xs ys,
    List.filterMap_map]
  refine List.filterMap_congr ?_
  rintro ⟨_ | x, _ | y⟩ _ <;> rfl

theorem filterMap_symbolsInBoth (ascending1 : (xs.map key).Pairwise (· < ·))
    (ascending2 : (ys.map key).Pairwise (· < ·)) :
    (Sweep.sweep key key xs ys).filterMap symbolsInBoth =
      xs.filterMap fun x => (ys.find? (key · = key x)).map (x, ·) := by
  induction xs, ys using Sweep.sweep_induction key key with
  | nil ys => simp [symbolsInBoth]
  | rest x xs ih =>
    have rest := ih ascending1.of_cons ascending2
    rw [Sweep.sweep_cons_nil, List.filterMap_cons, List.filterMap_cons]
    exact rest
  | less x xs y ys before ih =>
    have rest := ih ascending1.of_cons ascending2
    have above := Sweep.lt_of_lt_head (ascending2.imp le_of_lt) before
    have alone : (y :: ys).find? (key · = key x) = none := by
      rw [List.find?_eq_none]
      intro z present
      simpa using (above z present).ne'
    rw [Sweep.sweep_less before, List.filterMap_cons, List.filterMap_cons, alone]
    exact rest
  | greater x xs y ys after ih =>
    have rest := ih ascending1 ascending2.of_cons
    have above := Sweep.lt_of_lt_head (ascending1.imp le_of_lt) after
    rw [Sweep.sweep_greater after, List.filterMap_cons]
    refine Eq.trans rest (List.filterMap_congr ?_)
    intro z present
    rw [List.find?_cons_of_neg (by simpa using (above z present).ne)]
  | equal x xs y ys same ih =>
    have rest := ih ascending1.of_cons ascending2.of_cons
    have above : ∀ z ∈ xs, key y < key z := by
      intro z present
      rw [← same]
      exact List.rel_of_pairwise_cons ascending1 (List.mem_map_of_mem present)
    have partner : (y :: ys).find? (key · = key x) = some y :=
      List.find?_cons_of_pos (by simpa using same.symm)
    rw [Sweep.sweep_equal same, List.filterMap_cons, List.filterMap_cons, partner]
    refine congrArg ((x, y) :: ·) (Eq.trans rest (List.filterMap_congr ?_))
    intro z present
    rw [List.find?_cons_of_neg (by simpa using (above z present).ne)]

end Sweep

section Run

variable {α : Type} {items : List α} {text : α → String} {node node1 node2 : α → Id}

/-- The state with the comparisons that have one side only. -/
def State.record (s : State) (comparisons : List Comparison) : State :=
  { s with outcomes := comparisons.foldl (fun outcomes c => emplace outcomes c {}) s.outcomes }

/-- Differences behind those that a result has. -/
def Result.append (result : Result) (equals : Bool) (details : List DiffDetail) : Result :=
  { equals := result.equals && equals
    diff := { result.diff with details := result.diff.details ++ details } }

variable {nested : Id → Id → CompareM Answer}

theorem runSteps_removed (items : List α) (result : Result) (s : State) :
    (runSteps ⟨nested, removed, added⟩ (items.map fun item => .removed (text item) (node item))
        result).run s =
      .ok (result.append items.isEmpty
          (items.map fun item => ⟨text item, some (some (node item), none)⟩),
        s.record (items.map fun item => (some (node item), none))) := by
  induction items generalizing result s with
  | nil => simp [Result.append, State.record]; rfl
  | cons item items ih =>
    have step : (Step.run (m := CompareM) ⟨nested, removed, added⟩ result
        (.removed (text item) (node item))).run s =
        .ok (result.addEdgeDiff (text item) (some (node item), none),
          s.record [(some (node item), none)]) := rfl
    rw [List.map_cons, runSteps_cons, StateT.run_bind, step]
    refine (ih _ _).trans ?_
    simp [Result.append, Result.addEdgeDiff, Diff.add, State.record]

theorem runSteps_added (items : List α) (result : Result) (s : State) :
    (runSteps ⟨nested, removed, added⟩ (items.map fun item => .added (text item) (node item))
        result).run s =
      .ok (result.append items.isEmpty
          (items.map fun item => ⟨text item, some (none, some (node item))⟩),
        s.record (items.map fun item => (none, some (node item)))) := by
  induction items generalizing result s with
  | nil => simp [Result.append, State.record]; rfl
  | cons item items ih =>
    have step : (Step.run (m := CompareM) ⟨nested, removed, added⟩ result
        (.added (text item) (node item))).run s =
        .ok (result.addEdgeDiff (text item) (none, some (node item)),
          s.record [(none, some (node item))]) := rfl
    rw [List.map_cons, runSteps_cons, StateT.run_bind, step]
    refine (ih _ _).trans ?_
    simp [Result.append, Result.addEdgeDiff, Diff.add, State.record]

/-- The details of answers that carry a comparison. -/
def changedDetails (text : α → String) (answered : List (α × Answer)) : List DiffDetail :=
  answered.filterMap fun item => item.2.2.map fun comparison => ⟨text item.1, some comparison⟩

theorem runSteps_compared {m : Type → Type} [Monad m] [LawfulMonad m] (h : Handlers m)
    (items : List α) (result : Result) :
    runSteps h (items.map fun item => .compare (text item) (node1 item) (node2 item)) result =
      (do
        let answers ← items.mapM fun item => h.compare (node1 item) (node2 item)
        pure (result.append (answers.all (·.1)) (changedDetails text (items.zip answers)))) := by
  induction items generalizing result with
  | nil => simp [Result.append, changedDetails]
  | cons item items ih =>
    simp only [List.map_cons, runSteps_cons, Step.run, List.mapM_cons, bind_assoc, pure_bind, ih]
    refine bind_congr fun answer => bind_congr fun answers => ?_
    congr 1
    obtain ⟨equals, comparison⟩ := answer
    cases comparison <;>
      simp [Result.append, Result.maybeAddEdgeDiff, Diff.add, changedDetails, Bool.and_assoc]

end Run

section Classify

variable {self other : Symbols}

/-- The symbols whose keys the other map does not have. -/
def Symbols.without (self other : Symbols) : List (SymbolKey × Id) :=
  self.symbols.filter fun symbol => symbol.1 ∉ other.keys

/-- The keys of both maps, with the id each of them maps to. -/
def Symbols.inBoth (self other : Symbols) : List (SymbolKey × Id × Id) :=
  self.symbols.filterMap fun symbol =>
    (other.symbols.lookup symbol.1).map fun id => (symbol.1, symbol.2, id)

theorem lookup_eq_find? {κ β : Type} [DecidableEq κ] (entries : List (κ × β)) (key : κ) :
    entries.lookup key = (entries.find? (·.1 = key)).map (·.2) := by
  induction entries with
  | nil => rfl
  | cons entry entries ih =>
    rw [List.lookup_cons, List.find?_cons]
    by_cases here : entry.1 = key
    · simp [here]
    · have other : (key == entry.1) = false := by simpa using Ne.symm here
      simp [here, other, ih]

theorem Symbols.plan_classified (self other : Symbols) :
    self.plan other = ⟨true,
      (self.without other).map (fun symbol => .removed (quotePath symbol.1.path) symbol.2) ++
      (other.without self).map (fun symbol => .added (quotePath symbol.1.path) symbol.2) ++
      (self.inBoth other).map fun symbol =>
        .compare (quotePath symbol.1.path) symbol.2.1 symbol.2.2⟩ := by
  have both : (self.inBoth other).map (fun symbol =>
        Step.compare (quotePath symbol.1.path) symbol.2.1 symbol.2.2) =
      ((Sweep.sweep (·.1) (·.1) self.symbols other.symbols).filterMap symbolsInBoth).map fun pair =>
        Step.compare (quotePath pair.1.1.path) pair.1.2 pair.2.2 := by
    rw [filterMap_symbolsInBoth self.ascending other.ascending, Symbols.inBoth, List.map_filterMap,
      List.map_filterMap]
    refine List.filterMap_congr ?_
    intro symbol _
    rw [lookup_eq_find?, Option.map_map, Option.map_map, Option.map_map]
    congr!
  rw [both]
  unfold Symbols.plan Symbols.without
  dsimp only
  rw [filterMap_removedSymbol self.ascending other.ascending,
    filterMap_addedSymbol self.ascending other.ascending]
  congr!

theorem Symbols.mem_inBoth {key : SymbolKey} {id1 id2 : Id} :
    (key, id1, id2) ∈ self.inBoth other ↔
      (key, id1) ∈ self.symbols ∧ (key, id2) ∈ other.symbols := by
  simp only [Symbols.inBoth, List.mem_filterMap, Option.map_eq_some_iff,
    Lookup.lookup_eq_some other.keys_nodup, Prod.mk.injEq, Prod.exists]
  constructor
  · rintro ⟨key', id', present, id, found, rfl, rfl, rfl⟩
    exact ⟨present, found⟩
  · intro both
    exact ⟨key, id1, both.1, id2, both.2, rfl, rfl, rfl⟩

theorem Symbols.keys_inBoth (self other : Symbols) :
    (self.inBoth other).map (·.1) = self.keys.filter (· ∈ other.keys) := by
  have keys : self.keys = self.symbols.map (·.1) := rfl
  rw [Symbols.inBoth, keys, List.filter_map, List.map_filterMap, ← List.filterMap_eq_filter,
    List.map_filterMap]
  refine List.filterMap_congr ?_
  intro symbol _
  by_cases present : symbol.1 ∈ other.keys
  · obtain ⟨entry, among, same⟩ := List.mem_map.mp present
    have found : other.symbols.lookup symbol.1 = some entry.2 :=
      Lookup.lookup_of_mem other.keys_nodup (same ▸ among)
    simp [found, present]
  · have absent : other.symbols.lookup symbol.1 = none := by
      rw [Option.eq_none_iff_forall_ne_some]
      intro id found
      exact present (List.mem_map.mpr ⟨_, Lookup.mem_of_lookup found, rfl⟩)
    simp [absent, present]

theorem Symbols.keys_without (self other : Symbols) :
    (self.without other).map (·.1) = self.keys.filter (· ∉ other.keys) := by
  have keys : self.keys = self.symbols.map (·.1) := rfl
  rw [Symbols.without, keys, List.filter_map]
  rfl

/-- Every key of either map is in exactly one of the three groups. -/
theorem Symbols.groups_disjoint (self other : Symbols) :
    ((self.without other).map (·.1) ++ (other.without self).map (·.1) ++
      (self.inBoth other).map (·.1)).Nodup := by
  simp only [keys_without, keys_inBoth]
  rw [List.nodup_append, List.nodup_append]
  refine ⟨⟨self.keys_nodup.filter _, other.keys_nodup.filter _, ?_⟩, self.keys_nodup.filter _, ?_⟩
  · intro key removed key' added same
    rw [List.mem_filter, decide_eq_true_eq] at removed added
    exact removed.2 (same ▸ added.1)
  · intro key oneSided key' both same
    subst same
    simp only [List.mem_append, List.mem_filter, decide_eq_true_eq] at oneSided both
    tauto

theorem Symbols.mem_groups {key : SymbolKey} :
    key ∈ (self.without other).map (·.1) ++ (other.without self).map (·.1) ++
      (self.inBoth other).map (·.1) ↔ key ∈ self.keys ∨ key ∈ other.keys := by
  simp only [keys_without, keys_inBoth, List.mem_append, List.mem_filter, decide_eq_true_eq]
  tauto

theorem Symbols.without_eq_nil : self.without other = [] ↔ ∀ key ∈ self.keys, key ∈ other.keys := by
  rw [← List.map_eq_nil_iff (f := (·.1)), keys_without, List.filter_eq_nil_iff]
  simp

end Classify

section Equals

variable {nested : Id → Id → CompareM Answer}

theorem State.record_append (s : State) (first second : List Comparison) :
    (s.record first).record second = s.record (first ++ second) := by
  simp [State.record]

/-- The comparisons that only one map has a symbol for. -/
def Symbols.unpaired (self other : Symbols) : List Comparison :=
  (self.without other).map (fun symbol => (some symbol.2, none)) ++
    (other.without self).map fun symbol => (none, some symbol.2)

/-- The removed symbols, then the added ones, then the common ones whose answer has a comparison. -/
def Symbols.details (self other : Symbols) (answers : List Answer) : List DiffDetail :=
  (self.without other).map (fun symbol =>
      ⟨quotePath symbol.1.path, some (some symbol.2, none)⟩) ++
    (other.without self).map (fun symbol =>
      ⟨quotePath symbol.1.path, some (none, some symbol.2)⟩) ++
    changedDetails (fun symbol => quotePath symbol.1.path) ((self.inBoth other).zip answers)

theorem Symbols.equals_run (self other : Symbols) (s : State) :
    (self.equals ⟨nested, removed, added⟩ other).run s =
      (do
        let answers ← (self.inBoth other).mapM fun symbol => nested symbol.2.1 symbol.2.2
        pure ⟨(self.without other).isEmpty && (other.without self).isEmpty && answers.all (·.1),
          ⟨true, false, self.details other answers⟩⟩ : CompareM Result).run
        (s.record (self.unpaired other)) := by
  rw [Symbols.equals_eq, Plan.run, Symbols.plan_classified, runSteps_append, runSteps_append,
    bind_assoc, StateT.run_bind, runSteps_removed]
  change (runSteps _ _ _ >>= _ : CompareM Result).run _ = _
  rw [StateT.run_bind, runSteps_added, State.record_append]
  change (runSteps _ _ _ : CompareM Result).run _ = _
  rw [runSteps_compared]
  simp [Result.append, Symbols.details, Symbols.unpaired, Bool.and_assoc]

theorem Symbols.same_keys (self other : Symbols) :
    ((self.without other).isEmpty && (other.without self).isEmpty) = true ↔
      ∀ key, key ∈ self.keys ↔ key ∈ other.keys := by
  rw [Bool.and_eq_true, List.isEmpty_iff, List.isEmpty_iff, Symbols.without_eq_nil,
    Symbols.without_eq_nil]
  exact ⟨fun both key => ⟨both.1 key, both.2 key⟩,
    fun same => ⟨fun key => (same key).mp, fun key => (same key).mpr⟩⟩

/-- `Symbols::Equals` puts every key of either map into one of three groups: it makes one edge
for each removed and for each added symbol and one call for each common one, in the order of the
keys, and finds the maps equal if they have the same keys and all the calls found equality. -/
theorem symbols_equals_classifies (self other : Symbols) (nested : Id → Id → CompareM Answer)
    (s s' : State) (result : Result) :
    (∀ key key' : SymbolKey, (key.compare key' < 0 ↔ key < key') ∧
      (key.compare key' > 0 ↔ key > key') ∧ (key.compare key' = 0 ↔ key = key')) ∧
    ((self.without other).map (·.1) ++ (other.without self).map (·.1) ++
      (self.inBoth other).map (·.1)).Nodup ∧
    (∀ key, key ∈ (self.without other).map (·.1) ++ (other.without self).map (·.1) ++
      (self.inBoth other).map (·.1) ↔ key ∈ self.keys ∨ key ∈ other.keys) ∧
    (∀ key id1 id2, (key, id1, id2) ∈ self.inBoth other ↔
      (key, id1) ∈ self.symbols ∧ (key, id2) ∈ other.symbols) ∧
    ((self.without other).map (·.1)).Pairwise (· < ·) ∧
    ((other.without self).map (·.1)).Pairwise (· < ·) ∧
    ((self.inBoth other).map (·.1)).Pairwise (· < ·) ∧
    ((self.equals ⟨nested, removed, added⟩ other).run s = .ok (result, s') ↔
      ∃ answers, ((self.inBoth other).mapM fun symbol => nested symbol.2.1 symbol.2.2).run
          (s.record (self.unpaired other)) = .ok (answers, s') ∧
        (result.equals = true ↔ (∀ key, key ∈ self.keys ↔ key ∈ other.keys) ∧
          ∀ answer ∈ answers, answer.1 = true) ∧
        result.diff = ⟨true, false, self.details other answers⟩) := by
  refine ⟨fun key key' => ⟨key.compare_neg key', key.compare_pos key', key.compare_eq_zero key'⟩,
    self.groups_disjoint other, fun _ => Symbols.mem_groups, fun _ _ _ => Symbols.mem_inBoth,
    ?_, ?_, ?_, ?_⟩
  · rw [Symbols.keys_without]
    exact self.ascending.filter _
  · rw [Symbols.keys_without]
    exact other.ascending.filter _
  · rw [Symbols.keys_inBoth]
    exact self.ascending.filter _
  · rw [Symbols.equals_run, StateT.run_bind]
    constructor
    · intro ran
      obtain ⟨⟨answers, s₁⟩, called, ran⟩ := bind_eq_ok ran
      cases ran
      refine ⟨answers, called, ?_, rfl⟩
      rw [← Symbols.same_keys]
      simp
    · rintro ⟨answers, called, verdict, details⟩
      rw [called]
      obtain ⟨equals, diff⟩ := result
      cases details
      have same : equals = ((self.without other).isEmpty && (other.without self).isEmpty &&
          answers.all (·.1)) := by
        rw [Bool.eq_iff_iff, Bool.and_eq_true, Symbols.same_keys, List.all_eq_true]
        exact verdict
      rw [same]
      rfl

end Equals

end Stg
