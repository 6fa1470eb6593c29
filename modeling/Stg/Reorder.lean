import Stg.Order
import Stg.Lib.Precedes

set_option autoImplicit false

/- What the merge of two orderings guarantees about the order of the result, and that
`Reorder` does not depend on the order in which it is given the constraints. -/
namespace Stg

section Merge

variable {α : Type} {before after before' after' : List α} {value : α}

/-- One step of the merge, with the indexes split at the place of the next insertion. -/
inductive Extending : List α → List α → α → List α → List α → Prop where
  | insert {before after : List α} {value : α} : value ∉ before ++ after →
      Extending before after value (before ++ [value]) after
  | keep {before after : List α} {value : α} : value ∈ before →
      Extending before after value before after
  | skip {before passed after : List α} {value : α} : value ∉ before ++ passed →
      Extending before (passed ++ value :: after) value (before ++ passed ++ [value]) after

theorem insertIdx_length_append (before after : List α) (value : α) :
    (before ++ after).insertIdx before.length value = before ++ value :: after := by
  induction before with
  | nil => rfl
  | cons head rest ih =>
    rw [List.cons_append, List.length_cons, List.insertIdx_succ_cons, ih, List.cons_append]

theorem idxOf?_append_cons [DecidableEq α] (absent : value ∉ before) (after : List α) :
    (before ++ value :: after).idxOf? value = some before.length := by
  induction before with
  | nil => simp [List.idxOf?_cons]
  | cons head rest ih =>
    have other : (head == value) = false := by
      apply beq_eq_false_iff_ne.mpr
      intro same
      exact absent (same ▸ List.mem_cons_self)
    have rest := ih fun present => absent (List.mem_cons_of_mem _ present)
    rw [List.cons_append, List.idxOf?_cons, other, rest]
    rfl

theorem extendStep_extending [DecidableEq α] (before after : List α) (value : α) :
    ∃ before' after', Extending before after value before' after' ∧
      extendStep (before ++ after, before.length) value = (before' ++ after', before'.length) := by
  unfold extendStep
  by_cases missing : value ∉ before ++ after
  · refine ⟨before ++ [value], after, .insert missing, ?_⟩
    have found : (before ++ after).idxOf? value = none := List.idxOf?_eq_none_iff.mpr missing
    simp only [found, insertIdx_length_append]
    simp
  by_cases early : value ∈ before
  · obtain ⟨front, back, rfl, first⟩ := List.eq_append_cons_of_mem early
    refine ⟨_, after, .keep early, ?_⟩
    have found := idxOf?_append_cons first (back ++ after)
    simp only [List.append_assoc, List.cons_append, found]
    have inside : ¬ (front ++ value :: back).length ≤ front.length := by
      simp only [List.length_append, List.length_cons]
      omega
    rw [if_neg inside]
  · have late : value ∈ after := (List.mem_append.mp (not_not.mp missing)).resolve_left early
    obtain ⟨passed, rest, rfl, first⟩ := List.eq_append_cons_of_mem late
    have absent : value ∉ before ++ passed := by
      rw [List.mem_append]
      exact fun either => either.elim early first
    refine ⟨_, rest, .skip absent, ?_⟩
    have found := idxOf?_append_cons absent rest
    simp only [← List.append_assoc, found]
    have inside : before.length ≤ (before ++ passed).length := by
      rw [List.length_append]
      omega
    rw [if_pos inside]
    simp [Nat.add_assoc]

variable {indexes1 indexes2 done : List α} {r : α → α → Prop}

/-- What holds while the second ordering is merged into the first one. -/
structure Merging (indexes1 : List α) (r : α → α → Prop) (done before after : List α) : Prop where
  first : indexes1.Sublist (before ++ after)
  nodup : (before ++ after).Nodup
  mem : ∀ x, x ∈ before ++ after ↔ x ∈ indexes1 ∨ x ∈ done
  placed : ∀ x ∈ done, x ∈ before
  -- what the first ordering does not have is never put before what comes before it
  late : (before ++ after).Pairwise fun x y => x ∉ indexes1 → y ∈ done → r x y

theorem Merging.start (nodup : indexes1.Nodup) : Merging indexes1 r [] [] indexes1 where
  first := .refl _
  nodup := nodup
  mem x := by simp
  placed := nofun
  late := by
    apply List.Pairwise.imp (R := fun _ _ => True) _ (List.pairwise_of_forall fun _ _ => trivial)
    intro x y _ _ present
    cases present

/-- The new value is only compared with what is old, or stands after everything done. -/
theorem Merging.extended (merging : Merging indexes1 r done before after)
    (ordered : ∀ x ∈ done, r x value) {x y : α} (present : x ∈ before ++ after)
    (earlier : x ∉ indexes1 → y ∈ done → r x y) (new : x ∉ indexes1) (among : y ∈ done ++ [value]) :
    r x y := by
  rcases List.mem_append.mp among with among | same
  · exact earlier new among
  · rw [List.mem_singleton.mp same]
    exact ordered x (((merging.mem x).mp present).resolve_left new)

theorem Merging.insert (merging : Merging indexes1 r done before after)
    (missing : value ∉ before ++ after) (ordered : ∀ x ∈ done, r x value) :
    Merging indexes1 r (done ++ [value]) (before ++ [value]) after := by
  have perm : (before ++ [value] ++ after).Perm (value :: (before ++ after)) := by
    rw [List.append_assoc]
    exact List.perm_middle
  refine ⟨?_, ?_, ?_, ?_, ?_⟩
  · refine merging.first.trans ?_
    rw [List.append_assoc]
    exact .append (.refl _) (List.sublist_cons_self _ _)
  · exact perm.nodup_iff.mpr (List.nodup_cons.mpr ⟨missing, merging.nodup⟩)
  · intro x
    rw [perm.mem_iff, List.mem_cons, merging.mem, List.mem_append, List.mem_singleton]
    tauto
  · intro x present
    rw [List.mem_append, List.mem_singleton] at present ⊢
    exact present.imp_left (merging.placed x)
  · rw [List.append_assoc, List.singleton_append, List.pairwise_append, List.pairwise_cons]
    have pairs := List.pairwise_append.mp merging.late
    refine ⟨pairs.1.imp_of_mem ?_, ⟨?_, pairs.2.1.imp_of_mem ?_⟩, ?_⟩
    · intro x y presentX _ earlier
      exact merging.extended ordered (List.mem_append_left _ presentX) earlier
    · intro y presentY _ among
      rcases List.mem_append.mp among with among | same
      · have apart := (List.nodup_append.mp merging.nodup).2.2 y (merging.placed y among) y presentY
        exact absurd rfl apart
      · rw [List.mem_singleton.mp same] at presentY
        exact absurd (List.mem_append_right _ presentY) missing
    · intro x y presentX _ earlier
      exact merging.extended ordered (List.mem_append_right _ presentX) earlier
    · intro x presentX y presentY new among
      have old := List.mem_append_left after presentX
      rcases List.mem_cons.mp presentY with rfl | presentY
      · exact ordered x (((merging.mem x).mp old).resolve_left new)
      · exact merging.extended ordered old (pairs.2.2 x presentX y presentY) new among

/-- A value that is there already stays where it is. -/
theorem Merging.pass (merging : Merging indexes1 r done before after)
    (same : before' ++ after' = before ++ after) (grows : before ⊆ before') (here : value ∈ before')
    (ordered : ∀ x ∈ done, r x value) : Merging indexes1 r (done ++ [value]) before' after' := by
  have present : value ∈ before ++ after := same ▸ List.mem_append_left after' here
  refine ⟨same ▸ merging.first, same ▸ merging.nodup, ?_, ?_, same ▸ merging.late.imp_of_mem ?_⟩
  · intro x
    rw [same, List.mem_append (t := [value]), List.mem_singleton, ← or_assoc, ← merging.mem]
    constructor
    · exact Or.inl
    · rintro (present' | rfl)
      · exact present'
      · exact present
  · intro x among
    rcases List.mem_append.mp among with among | equal
    · exact grows (merging.placed x among)
    · exact List.mem_singleton.mp equal ▸ here
  · intro x y presentX _ earlier
    exact merging.extended ordered presentX earlier

theorem Merging.step (merging : Merging indexes1 r done before after)
    (extending : Extending before after value before' after') (ordered : ∀ x ∈ done, r x value) :
    Merging indexes1 r (done ++ [value]) before' after' := by
  cases extending with
  | insert missing => exact merging.insert missing ordered
  | keep early => exact merging.pass rfl (fun _ => id) early ordered
  | skip absent =>
    refine merging.pass (by simp) (fun x present => ?_) (by simp) ordered
    simp [present]

theorem pairwise_of_sublist {l l1 : List α} {q : α → α → Prop} (pairwise : l1.Pairwise q)
    (sublist : l1.Sublist l) (nodup : l.Nodup) :
    l.Pairwise fun x y => x ∈ l1 → y ∈ l1 → q x y := by
  induction sublist with
  | slnil => exact .nil
  | @cons l1 l x sublist ih =>
    have absent : x ∉ l1 := fun present =>
      (List.nodup_cons.mp nodup).1 (sublist.subset present)
    exact .cons (fun _ _ present => absurd present absent)
      (ih pairwise (List.nodup_cons.mp nodup).2)
  | @cons_cons l1 l x sublist ih =>
    obtain ⟨absent, nodup⟩ := List.nodup_cons.mp nodup
    have inner := ih pairwise.of_cons nodup
    refine .cons (fun y among _ present => ?_) (inner.imp_of_mem ?_)
    · rcases List.mem_cons.mp present with rfl | present
      · exact absurd among absent
      · exact List.rel_of_pairwise_cons pairwise present
    · intro y z amongY amongZ related presentY presentZ
      refine related ((List.mem_cons.mp presentY).resolve_left ?_)
        ((List.mem_cons.mp presentZ).resolve_left ?_)
      · exact fun same => absent (same ▸ amongY)
      · exact fun same => absent (same ▸ amongZ)

/-- The two orderings agree on what both have, and nothing of the second one is behind
the place of the next insertion before its turn. -/
structure Agreeing (indexes2 : List α) (r : α → α → Prop) (done before : List α) : Prop where
  turn : ∀ x ∈ before, x ∈ indexes2 → x ∈ done
  ordered : before.Pairwise fun x y => x ∈ done → y ∈ done → r x y

theorem Agreeing.extended (agreeing : Agreeing indexes2 r done before) (absent : value ∉ before) :
    before.Pairwise fun x y => x ∈ done ++ [value] → y ∈ done ++ [value] → r x y := by
  have old : ∀ x ∈ before, x ∈ done ++ [value] → x ∈ done := by
    intro x here among
    refine (List.mem_append.mp among).resolve_right fun same => ?_
    exact absent (List.mem_singleton.mp same ▸ here)
  exact agreeing.ordered.imp_of_mem fun hereX hereY related amongX amongY =>
    related (old _ hereX amongX) (old _ hereY amongY)

theorem Agreeing.step (agreeing : Agreeing indexes2 r done before)
    (merging : Merging indexes1 r done before after)
    (extending : Extending before after value before' after') (ordered : ∀ x ∈ done, r x value)
    (agree : indexes1.Pairwise fun x y => x ∈ indexes2 → y ∈ indexes2 → r x y)
    (next : value ∉ done) (among2 : value ∈ indexes2)
    (earlier : ∀ x ∈ indexes2, r x value → x ∈ done) :
    Agreeing indexes2 r (done ++ [value]) before' := by
  have last : ∀ x ∈ done ++ [value], x ≠ value → r x value := by
    intro x present other
    exact ordered x ((List.mem_append.mp present).resolve_right (by simpa using other))
  cases extending with
  | insert missing =>
    have absent : value ∉ before := fun here => missing (List.mem_append_left _ here)
    refine ⟨fun x here among => ?_, ?_⟩
    · rcases List.mem_append.mp here with here | same
      · exact List.mem_append_left _ (agreeing.turn x here among)
      · exact List.mem_append_right _ same
    · rw [List.pairwise_append]
      refine ⟨agreeing.extended absent, List.pairwise_singleton _ _, ?_⟩
      intro x here y same present _
      rw [List.mem_singleton.mp same]
      exact last x present fun equal => absent (equal ▸ here)
  | keep early => exact absurd (agreeing.turn value early among2) next
  | skip absent =>
    rename_i passed
    have nodup := merging.nodup
    have first : ∀ x, x ∈ before ++ (passed ++ value :: after') → x ∉ done → x ∈ indexes1 := by
      intro x present new
      exact ((merging.mem x).mp present).resolve_right new
    have notPassed : ∀ x ∈ passed, x ∉ done := by
      intro x present among
      have apart := (List.nodup_append.mp nodup).2.2 x (merging.placed x among) x
      exact apart (List.mem_append_left _ present) rfl
    -- what is passed is in the first ordering only
    have passedFirst : ∀ x ∈ passed, x ∉ indexes2 := by
      intro x present among
      have pairs := pairwise_of_sublist agree merging.first nodup
      have pair := (List.pairwise_append.mp (List.pairwise_append.mp pairs).2.1).2.2 x present value
        List.mem_cons_self
      have related := pair (first x (by simp [present]) (notPassed x present))
        (first value (by simp) next) among among2
      exact notPassed x present (earlier x among related)
    refine ⟨fun x here among => ?_, ?_⟩
    · rcases List.mem_append.mp here with here | same
      · rcases List.mem_append.mp here with here | here
        · exact List.mem_append_left _ (agreeing.turn x here among)
        · exact absurd among (passedFirst x here)
      · exact List.mem_append_right _ same
    · have apart : ∀ x ∈ passed, x ∉ done ++ [value] := by
        intro x present among
        rcases List.mem_append.mp among with among | same
        · exact notPassed x present among
        · exact absent (List.mem_append_right _ (List.mem_singleton.mp same ▸ present))
      rw [List.pairwise_append, List.pairwise_append]
      refine ⟨⟨agreeing.extended fun here => absent (List.mem_append_left _ here), ?_, ?_⟩,
        List.pairwise_singleton _ _, ?_⟩
      · exact List.pairwise_of_forall_mem_list fun x present _ _ among =>
          absurd among (apart x present)
      · exact fun x _ y present _ among => absurd among (apart y present)
      · intro x here y same present _
        rw [List.mem_singleton.mp same]
        exact last x present fun equal => absent (equal ▸ here)

/-- A property that every step of the merge preserves holds at the end. -/
theorem extendOrder_induction [DecidableEq α] {P : List α → List α → List α → Prop}
    (start : P [] [] indexes1)
    (step : ∀ {done value todo before after before' after'}, indexes2 = done ++ value :: todo →
      P done before after → Extending before after value before' after' →
        P (done ++ [value]) before' after') :
    ∃ before after, extendOrder indexes1 indexes2 = before ++ after ∧ P indexes2 before after := by
  have run : ∀ todo done before after, indexes2 = done ++ todo → P done before after →
      ∃ before' after', (todo.foldl extendStep (before ++ after, before.length)).1 =
        before' ++ after' ∧ P indexes2 before' after' := by
    intro todo
    induction todo with
    | nil =>
      intro done before after split holds
      rw [List.append_nil] at split
      exact ⟨before, after, rfl, split ▸ holds⟩
    | cons value todo ih =>
      intro done before after split holds
      obtain ⟨before', after', extending, stepped⟩ := extendStep_extending before after value
      have holds' := step split holds extending
      rw [List.foldl_cons, stepped]
      exact ih (done ++ [value]) before' after' (by simpa using split) holds'
  exact run indexes2 [] [] indexes1 rfl start

theorem extendOrder_merging [DecidableEq α] (nodup : indexes1.Nodup)
    (ordered : indexes2.Pairwise r) :
    ∃ before after, extendOrder indexes1 indexes2 = before ++ after ∧
      Merging indexes1 r indexes2 before after := by
  refine extendOrder_induction (.start nodup) fun split merging extending => ?_
  rw [split, List.pairwise_append] at ordered
  exact merging.step extending fun x present => ordered.2.2 x present _ List.mem_cons_self

theorem extendOrder_agreeing [DecidableEq α] (asymm : ∀ x y, r x y → ¬ r y x)
    (nodup : indexes1.Nodup)
    (ordered : indexes2.Pairwise r)
    (agree : indexes1.Pairwise fun x y => x ∈ indexes2 → y ∈ indexes2 → r x y) :
    (extendOrder indexes1 indexes2).Pairwise fun x y => x ∈ indexes2 → y ∈ indexes2 → r x y := by
  have step : ∀ {done value todo before after before' after'}, indexes2 = done ++ value :: todo →
      Merging indexes1 r done before after ∧ Agreeing indexes2 r done before →
        Extending before after value before' after' →
          Merging indexes1 r (done ++ [value]) before' after' ∧
            Agreeing indexes2 r (done ++ [value]) before' := by
    intro done value todo before after before' after' split both extending
    have pairs := ordered
    rw [split, List.pairwise_append, List.pairwise_cons] at pairs
    have earlier : ∀ x ∈ done, r x value := fun x present =>
      pairs.2.2 x present value List.mem_cons_self
    refine ⟨both.1.step extending earlier, both.2.step both.1 extending earlier agree ?_ ?_ ?_⟩
    · exact fun present => asymm value value (earlier value present) (earlier value present)
    · simp [split]
    · intro x present related
      rw [split, List.mem_append, List.mem_cons] at present
      rcases present with present | rfl | present
      · exact present
      · exact absurd related (asymm x x related)
      · exact absurd related (asymm value x (pairs.2.1.1 x present))
  obtain ⟨before, after, merged, merging, agreeing⟩ :=
    extendOrder_induction ⟨.start nodup, nofun, .nil⟩ step
  rw [merged, List.pairwise_append]
  have apart : ∀ x ∈ after, x ∉ indexes2 := by
    intro x present among
    exact (List.nodup_append.mp merging.nodup).2.2 x (merging.placed x among) x present rfl
  refine ⟨agreeing.ordered, ?_, ?_⟩
  · exact List.pairwise_of_forall_mem_list fun x present _ _ among => absurd among (apart x present)
  · exact fun x _ y present _ among => absurd among (apart y present)

open Lib in
theorem extendOrder_inserted [DecidableEq α] (nodup1 : indexes1.Nodup) (nodup2 : indexes2.Nodup)
    {x y : α} (precedes : Precedes indexes2 x y) (new : y ∉ indexes1) :
    Precedes (extendOrder indexes1 indexes2) x y := by
  have mem := (extendOrder_spec indexes1 indexes2 nodup1).2
  obtain ⟨before, after, merged, merging⟩ :=
    extendOrder_merging nodup1 (pairwise_precedes indexes2)
  have late := merging.late
  rw [← merged, List.pairwise_iff_forall_sublist] at late
  have either := precedes_or_precedes ((mem x).mpr (.inr precedes.left))
    ((mem y).mpr (.inr precedes.right)) (precedes.ne nodup2)
  refine either.resolve_right fun reverse => ?_
  exact precedes.asymm nodup2 (late reverse new precedes.left)

open Lib in
/-- `ExtendOrder` keeps the first ordering and adds the elements that only the second one has,
each behind what precedes it there; orderings that agree are both kept. -/
theorem extendOrder_reconciles [DecidableEq α] (indexes1 indexes2 : List α)
    (nodup1 : indexes1.Nodup) (nodup2 : indexes2.Nodup) :
    (extendOrder indexes1 indexes2).Nodup ∧
      (∀ x, x ∈ extendOrder indexes1 indexes2 ↔ x ∈ indexes1 ∨ x ∈ indexes2) ∧
      indexes1.Sublist (extendOrder indexes1 indexes2) ∧
      (∀ x y, Precedes indexes2 x y → y ∉ indexes1 →
        Precedes (extendOrder indexes1 indexes2) x y) ∧
      ((∀ x y, Precedes indexes1 x y → ¬ Precedes indexes2 y x) →
        indexes2.Sublist (extendOrder indexes1 indexes2)) := by
  have spec := extendOrder_spec indexes1 indexes2 nodup1
  obtain ⟨before, after, merged, merging⟩ :=
    extendOrder_merging nodup1 (pairwise_precedes indexes2)
  refine ⟨spec.1, spec.2, merged ▸ merging.first, ?_, ?_⟩
  · intro x y precedes new
    exact extendOrder_inserted nodup1 nodup2 precedes new
  · intro compatible
    have agree : indexes1.Pairwise fun x y =>
        x ∈ indexes2 → y ∈ indexes2 → Precedes indexes2 x y := by
      rw [List.pairwise_iff_forall_sublist]
      intro x y precedes amongX amongY
      have either := precedes_or_precedes amongX amongY (Precedes.ne nodup1 precedes)
      exact either.resolve_right (compatible x y precedes)
    have subset : indexes2 ⊆ extendOrder indexes1 indexes2 := by
      intro x present
      exact (spec.2 x).mpr (.inr present)
    refine sublist_of_precedes spec.1 nodup2 subset ?_
    exact extendOrder_agreeing (fun x y precedes => precedes.asymm nodup2) nodup1
      (pairwise_precedes indexes2) agree

open Lib in
theorem extendOrder_reconciles_names :
    extendOrder [0, 1, 2] [1, 3, 2] = [0, 1, 3, 2] ∧
      Precedes (extendOrder [0, 1, 2] [1, 3, 2]) 1 3 ∧
      [1, 3, 2].Sublist (extendOrder [0, 1, 2] [1, 3, 2]) := by
  have spec := extendOrder_reconciles [0, 1, 2] [1, 3, 2] (by decide) (by decide)
  refine ⟨by decide, spec.2.2.2.1 1 3 (by decide) (by decide), spec.2.2.2.2 ?_⟩
  intro x y precedes reverse
  have amongX : x ∈ [0, 1, 2] := precedes.left
  have amongY : y ∈ [0, 1, 2] := precedes.right
  have ordered : ∀ x ∈ [0, 1, 2], ∀ y ∈ [0, 1, 2],
      Precedes [0, 1, 2] x y → ¬ Precedes [1, 3, 2] y x := by decide
  exact ordered x amongX y amongY precedes reverse

theorem idxOf?_map {β : Type} [DecidableEq α] [DecidableEq β] {f : α → β} (l : List α)
    (injective : ∀ x ∈ l, f x = f value → x = value) :
    (l.map f).idxOf? (f value) = l.idxOf? value := by
  induction l with
  | nil => rfl
  | cons head rest ih =>
    have rest := ih fun x present => injective x (List.mem_cons_of_mem _ present)
    have same : (f head == f value) = (head == value) := by
      rw [Bool.eq_iff_iff, beq_iff_eq, beq_iff_eq]
      exact ⟨injective head List.mem_cons_self, congrArg f⟩
    rw [List.map_cons, List.idxOf?_cons, List.idxOf?_cons, rest, same]

theorem insertIdx_map {β : Type} (f : α → β) (l : List α) (pos : Nat) (value : α) :
    (l.map f).insertIdx pos (f value) = (l.insertIdx pos value).map f := by
  induction l generalizing pos with
  | nil => cases pos <;> rfl
  | cons head rest ih =>
    cases pos with
    | zero => rfl
    | succ pos =>
      rw [List.map_cons, List.insertIdx_succ_cons, List.insertIdx_succ_cons, ih, List.map_cons]

/-- The merge only looks at which elements are equal. -/
theorem extendOrder_map {β : Type} [DecidableEq α] [DecidableEq β] {f : α → β}
    (injective : ∀ x y, x ∈ indexes1 ∨ x ∈ indexes2 → y ∈ indexes1 ∨ y ∈ indexes2 →
      f x = f y → x = y) :
    extendOrder (indexes1.map f) (indexes2.map f) = (extendOrder indexes1 indexes2).map f := by
  have run : ∀ (todo l : List α) (pos : Nat),
      (∀ x y, x ∈ l ∨ x ∈ todo → y ∈ l ∨ y ∈ todo → f x = f y → x = y) →
      ((todo.map f).foldl extendStep (l.map f, pos)).1 =
        (todo.foldl extendStep (l, pos)).1.map f := by
    intro todo
    induction todo with
    | nil => exact fun l pos _ => rfl
    | cons value todo ih =>
      intro l pos injective
      have found := idxOf?_map l fun x present => injective x value (.inl present) (by simp)
      rw [List.map_cons, List.foldl_cons, List.foldl_cons]
      cases at_ : l.idxOf? value with
      | none =>
        have left : extendStep (l.map f, pos)
            (f value) = ((l.insertIdx pos value).map f, pos + 1) := by
          simp only [extendStep, found, at_, insertIdx_map]
        have right : extendStep (l, pos) value = (l.insertIdx pos value, pos + 1) := by
          simp only [extendStep, at_]
        rw [left, right]
        refine ih _ _ fun x y => ?_
        have old : ∀ z, z ∈ l.insertIdx pos value ∨ z ∈ todo → z ∈ l ∨ z ∈ value :: todo := by
          rintro z (present | present)
          · have among := List.insertIdx_subset_cons pos value l present
            rw [List.mem_cons] at among ⊢
            tauto
          · exact .inr (List.mem_cons_of_mem _ present)
        exact fun presentX presentY => injective x y (old x presentX) (old y presentY)
      | some index =>
        have left : extendStep (l.map f, pos) (f value) =
            (l.map f, if pos ≤ index then index + 1 else pos) := by
          simp only [extendStep, found, at_]
          split <;> rfl
        have right : extendStep (l, pos) value = (l, if pos ≤ index then index + 1 else pos) := by
          simp only [extendStep, at_]
          split <;> rfl
        rw [left, right]
        refine ih _ _ fun x y presentX presentY => ?_
        exact injective x y (presentX.imp_right (List.mem_cons_of_mem _))
          (presentY.imp_right (List.mem_cons_of_mem _))
  exact run indexes2 indexes1 0 injective

end Merge

section Reorder

variable {ι : Type} [LinearOrder ι] {data : List (Option ι × Option ι)}

/-- The first item comes first by the positions of one side. -/
def Before (side : Option ι × Option ι → Option ι) (x y : Option ι × Option ι) : Prop :=
  ∃ p q, side x = some p ∧ side y = some q ∧ p < q

variable {side : Option ι × Option ι → Option ι}

theorem Before.asymm {x y : Option ι × Option ι} (before : Before side x y) :
    ¬ Before side y x := by
  obtain ⟨p, q, atX, atY, less⟩ := before
  rintro ⟨q', p', atY', atX', greater⟩
  cases atX.symm.trans atX'
  cases atY.symm.trans atY'
  exact lt_asymm less greater

/-- The items that have a position on one side, in the order of these positions. -/
structure Placed (side : Option ι × Option ι → Option ι) (data placed : List (Option ι × Option ι)) :
    Prop where
  perm : placed.Perm (data.filter fun item => (side item).isSome)
  ascending : placed.Pairwise (Before side)

theorem Placed.mem {placed : List (Option ι × Option ι)} (isPlaced : Placed side data placed)
    (item : Option ι × Option ι) : item ∈ placed ↔ item ∈ data ∧ (side item).isSome := by
  rw [isPlaced.perm.mem_iff, List.mem_filter]

theorem Placed.nodup {placed : List (Option ι × Option ι)} (isPlaced : Placed side data placed) :
    placed.Nodup := by
  refine isPlaced.ascending.imp fun before same => ?_
  subst same
  exact before.asymm before

theorem Placed.unique {data' placed placed' : List (Option ι × Option ι)} (perm : data.Perm data')
    (isPlaced : Placed side data placed) (isPlaced' : Placed side data' placed') :
    placed = placed' := by
  have same := (isPlaced.perm.trans (perm.filter _)).trans isPlaced'.perm.symm
  refine List.Perm.eq_of_pairwise ?_ isPlaced.ascending isPlaced'.ascending same
  exact fun x y _ _ before after => absurd after before.asymm

omit [LinearOrder ι] in
theorem filter_indexes :
    ((List.range data.length).filter fun i => (data[i]?.bind side).isSome).filterMap (data[·]?) =
      data.filter fun item => (side item).isSome := by
  have whole : (data.filter fun item => (side item).isSome) =
      ((List.range data.length).filterMap (data[·]?)).filter fun item => (side item).isSome := by
    rw [range_filterMap_getElem?]
  rw [whole, List.filterMap_filter, List.filter_filterMap]
  refine List.filterMap_congr fun i _ => ?_
  cases data[i]? with
  | none => rfl
  | some item => cases held : side item <;> simp [held, Option.filter]

theorem pairwise_indexes (positions : List (Option ι)) (distinct : (positions.filterMap id).Nodup) :
    (indexesBy positions).Pairwise fun i j =>
      ∀ p q, positions[i]? = some (some p) → positions[j]? = some (some q) → p < q := by
  have nodup := nodup_indexesBy positions
  have sorted := List.pairwise_insertionSort (fun a b : ι × Nat => toLex a ≤ toLex b)
    (positions.zipIdx.filterMap fun item => item.1.map (·, item.2))
  have held : ∀ item ∈ (positions.zipIdx.filterMap fun item => item.1.map (·, item.2)).insertionSort
      (fun a b : ι × Nat => toLex a ≤ toLex b), positions[item.2]? = some (some item.1) := by
    intro item present
    obtain ⟨⟨position, index⟩, among, made⟩ :=
      List.mem_filterMap.mp ((List.mem_insertionSort _).mp present)
    obtain ⟨p, rfl, rfl⟩ := Option.map_eq_some_iff.mp made
    exact List.mk_mem_zipIdx_iff_getElem?.mp among
  have apart : ∀ (i j : Nat) (p : ι), i < j → positions[i]? = some (some p) →
      positions[j]? ≠ some (some p) := by
    intro i j p less atI atJ
    have pairs := List.pairwise_iff_getElem.mp (List.pairwise_filterMap.mp distinct)
    obtain ⟨insideI, atI⟩ := List.getElem?_eq_some_iff.mp atI
    obtain ⟨insideJ, atJ⟩ := List.getElem?_eq_some_iff.mp atJ
    exact pairs i j insideI insideJ less p atI p atJ rfl
  rw [indexesBy] at nodup ⊢
  rw [List.Nodup, List.pairwise_map] at nodup
  rw [List.pairwise_map]
  refine (sorted.and nodup).imp_of_mem fun {a b} presentA presentB ordered p q atA atB => ?_
  cases (held a presentA).symm.trans atA
  cases (held b presentB).symm.trans atB
  rcases Prod.Lex.toLex_le_toLex.mp ordered.1 with less | ⟨same, _⟩
  · exact less
  · exfalso
    rw [← same] at atB
    rcases Nat.lt_or_gt_of_ne ordered.2 with less | greater
    · exact apart _ _ _ less atA atB
    · exact apart _ _ _ greater atB atA

theorem indexesBy_placed (distinct : (data.filterMap side).Nodup) :
    Placed side data ((indexesBy (data.map side)).filterMap (data[·]?)) := by
  have at_ : ∀ i, (data.map side)[i]? = data[i]?.map side := fun i => List.getElem?_map
  constructor
  · rw [← filter_indexes]
    refine List.Perm.filterMap _ ?_
    rw [List.perm_ext_iff_of_nodup (nodup_indexesBy _) (List.nodup_range.filter _)]
    intro i
    rw [mem_indexesBy, at_, List.mem_filter, List.mem_range]
    cases held : data[i]? with
    | none => simp
    | some item =>
      have inside := (List.getElem?_eq_some_iff.mp held).1
      simp [inside, Option.isSome_iff_exists]
  · rw [List.pairwise_filterMap]
    have positions : ((data.map side).filterMap id).Nodup := by
      rwa [List.filterMap_map]
    refine (pairwise_indexes _ positions).imp_of_mem fun {i j}
      presentI presentJ ordered x atX y atY => ?_
    obtain ⟨p, heldX⟩ := (mem_indexesBy _ i).mp presentI
    obtain ⟨q, heldY⟩ := (mem_indexesBy _ j).mp presentJ
    have less := ordered p q heldX heldY
    rw [at_, atX] at heldX
    rw [at_, atY] at heldY
    exact ⟨p, q, Option.some.inj heldX, Option.some.inj heldY, less⟩

omit [LinearOrder ι] in
theorem nodup_of_distinct (positioned : ∀ item ∈ data, item.1.isSome || item.2.isSome)
    (distinct1 : (data.filterMap (·.1)).Nodup) (distinct2 : (data.filterMap (·.2)).Nodup) :
    data.Nodup := by
  rw [List.Nodup, List.pairwise_filterMap] at distinct1 distinct2
  refine (distinct1.and distinct2).imp_of_mem fun {x y} present _ apart same => ?_
  subst same
  have either := positioned x present
  rw [Bool.or_eq_true, Option.isSome_iff_exists, Option.isSome_iff_exists] at either
  rcases either with ⟨p, held⟩ | ⟨p, held⟩
  · exact apart.1 p held p held rfl
  · exact apart.2 p held p held rfl

/-- The result is the merge of the items that have a position on the one and on the other side. -/
theorem reorder_placed (positioned : ∀ item ∈ data, item.1.isSome || item.2.isSome)
    (distinct1 : (data.filterMap (·.1)).Nodup) (distinct2 : (data.filterMap (·.2)).Nodup) :
    ∃ placed1 placed2, Placed (·.1) data placed1 ∧ Placed (·.2) data placed2 ∧
      reorder data = .ok (extendOrder placed1 placed2) := by
  refine ⟨_, _, indexesBy_placed distinct1, indexesBy_placed distinct2, ?_⟩
  rw [reorder_eq data positioned]
  have nodup := nodup_of_distinct positioned distinct1 distinct2
  have complete := extendOrder_indexes data positioned
  have spec := extendOrder_spec (indexesBy (data.map (·.1))) (indexesBy (data.map (·.2)))
    (nodup_indexesBy _)
  have inside : ∀ i, i ∈ indexesBy (data.map (·.1)) ∨ i ∈ indexesBy (data.map (·.2)) →
      i < data.length := by
    intro i among
    exact List.mem_range.mp (complete.mem_iff.mp ((spec.2 i).mpr among))
  have reads : ∀ indexes : List Nat, (∀ i ∈ indexes, i < data.length) →
      indexes.filterMap (data[·]?) = indexes.map fun i => data.getD i (none, none) := by
    intro indexes bounded
    rw [← List.filterMap_eq_map]
    refine List.filterMap_congr fun i present => ?_
    simp [bounded i present]
  have injective : ∀ i j, i ∈ indexesBy (data.map (·.1)) ∨ i ∈ indexesBy (data.map (·.2)) →
      j ∈ indexesBy (data.map (·.1)) ∨ j ∈ indexesBy (data.map (·.2)) →
      data.getD i (none, none) = data.getD j (none, none) → i = j := by
    intro i j amongI amongJ same
    have insideI := inside i amongI
    have insideJ := inside j amongJ
    simp only [List.getD_eq_getElem?_getD, List.getElem?_eq_getElem insideI,
      List.getElem?_eq_getElem insideJ, Option.getD_some] at same
    exact (List.Nodup.getElem_inj_iff nodup).mp same
  rw [reads _ fun i present => inside i (.inl present), reads _ fun i present =>
    inside i (.inr present),
    reads _ fun i present => inside i ((spec.2 i).mp present), extendOrder_map injective]

theorem positions_ascending {merged placed : List (Option ι × Option ι)}
    (isPlaced : Placed side data placed)
    (pairs : merged.Pairwise fun x y => x ∈ placed → y ∈ placed → Before side x y)
    (perm : merged.Perm data) : (merged.filterMap side).Pairwise (· < ·) := by
  rw [List.pairwise_filterMap]
  refine pairs.imp_of_mem fun {x y} presentX presentY ordered p atX q atY => ?_
  have among : ∀ item ∈ merged, (side item).isSome → item ∈ placed := fun item present held =>
    (isPlaced.mem item).mpr ⟨perm.mem_iff.mp present, held⟩
  obtain ⟨p', q', atX', atY', less⟩ :=
    ordered (among x presentX (by simp [atX])) (among y presentY (by simp [atY]))
  cases atX.symm.trans atX'
  cases atY.symm.trans atY'
  exact less

/-- `Reorder` follows the first positions, puts nothing that only has a second position
before what comes before it there, follows the second positions as well if they agree with
the first ones, and only depends on the set of the constraints. -/
theorem reorder_constraints (data : List (Option ι × Option ι))
    (positioned : ∀ item ∈ data, item.1.isSome || item.2.isSome)
    (distinct1 : (data.filterMap (·.1)).Nodup) (distinct2 : (data.filterMap (·.2)).Nodup) :
    ∃ result, reorder data = .ok result ∧ result.Perm data ∧
      (result.filterMap (·.1)).Pairwise (· < ·) ∧
      (∀ earlier x later, result = earlier ++ x :: later → x.1 = none →
        ∀ y ∈ data, Before (·.2) y x → y ∈ earlier) ∧
      ((∀ x ∈ data, ∀ y ∈ data, Before (·.1) x y → ¬ Before (·.2) y x) →
        (result.filterMap (·.2)).Pairwise (· < ·)) ∧
      ∀ data', (data'.filterMap (·.1)).Nodup → (data'.filterMap (·.2)).Nodup →
        (∀ item, item ∈ data' ↔ item ∈ data) → reorder data' = .ok result := by
  obtain ⟨placed1, placed2, isPlaced1, isPlaced2, run⟩ :=
    reorder_placed positioned distinct1 distinct2
  obtain ⟨result, run', perm⟩ := reorder_spec data positioned
  cases run.symm.trans run'
  obtain ⟨before, after, split, merging⟩ :=
    extendOrder_merging isPlaced1.nodup isPlaced2.ascending
  refine ⟨_, run, perm, ?_, ?_, ?_, ?_⟩
  · rw [split] at perm ⊢
    have pairs := pairwise_of_sublist isPlaced1.ascending merging.first merging.nodup
    exact positions_ascending isPlaced1 pairs perm
  · intro earlier x later parts alone y present less
    have late := merging.late
    rw [← split, parts, List.pairwise_append, List.pairwise_cons] at late
    obtain ⟨p, q, atY, atX, smaller⟩ := less
    have among : y ∈ earlier ++ x :: later := parts ▸ perm.mem_iff.mpr present
    rcases List.mem_append.mp among with among | among
    · exact among
    · rcases List.mem_cons.mp among with rfl | among
      · cases atX.symm.trans atY
        exact absurd smaller (lt_irrefl p)
      · have new : x ∉ placed1 := by
          rw [isPlaced1.mem, alone]
          simp
        have follows := late.2.1.1 y among new ((isPlaced2.mem y).mpr ⟨present, by simp [atY]⟩)
        exact absurd ⟨p, q, atY, atX, smaller⟩ follows.asymm
  · intro agree
    refine positions_ascending isPlaced2 ?_ perm
    refine extendOrder_agreeing (fun x y => Before.asymm) isPlaced1.nodup isPlaced2.ascending ?_
    refine isPlaced1.ascending.imp fun {x y} before amongX amongY => ?_
    obtain ⟨dataX, heldX⟩ := (isPlaced2.mem x).mp amongX
    obtain ⟨dataY, heldY⟩ := (isPlaced2.mem y).mp amongY
    obtain ⟨p, atX⟩ := Option.isSome_iff_exists.mp heldX
    obtain ⟨q, atY⟩ := Option.isSome_iff_exists.mp heldY
    refine ⟨p, q, atX, atY, lt_of_le_of_ne (not_lt.mp fun less => ?_) ?_⟩
    · exact agree x dataX y dataY before ⟨q, p, atY, atX, less⟩
    · rintro rfl
      have apart := List.pairwise_filterMap.mp distinct2
      have symmetric : Std.Symm fun x y : Option ι × Option ι =>
          ∀ p, x.2 = some p → ∀ q, y.2 = some q → p ≠ q :=
        ⟨fun x y apart p atX q atY => (apart q atY p atX).symm⟩
      have other : x ≠ y := fun equal => before.asymm (equal ▸ before)
      exact apart.forall dataX dataY other p atX p atY rfl
  · intro data' distinct1' distinct2' same
    have positioned' : ∀ item ∈ data', item.1.isSome || item.2.isSome := fun item present =>
      positioned item ((same item).mp present)
    have perm' : data.Perm data' := by
      have nodup := nodup_of_distinct positioned distinct1 distinct2
      refine (List.perm_ext_iff_of_nodup nodup ?_).mpr ?_
      · exact nodup_of_distinct positioned' distinct1' distinct2'
      · exact fun item => (same item).symm
    obtain ⟨placed1', placed2', isPlaced1', isPlaced2', run'⟩ :=
      reorder_placed positioned' distinct1' distinct2'
    rw [isPlaced1.unique perm' isPlaced1', isPlaced2.unique perm' isPlaced2', run']

theorem reorder_constraints_sequences :
    ∃ result, reorder [(some 2, some 2), (some 1, some 0), (some 0, none), (none, some 1)] =
        .ok result ∧
      result.Perm [(some 2, some 2), (some 1, some 0), (some 0, none), (none, some 1)] ∧
      (result.filterMap (·.1)).Pairwise (· < ·) := by
  obtain ⟨result, run, perm, ascending, _⟩ := reorder_constraints
    [(some 2, some 2), (some 1, some 0), (some 0, none), (none, some 1)]
    (by decide) (by decide) (by decide)
  exact ⟨result, run, perm, ascending⟩

end Reorder

end Stg
