import Stg.Compare

set_option autoImplicit false

/- What the last step of an examination does to the stores. -/
namespace Stg

open Emplace (emplace lookup_emplace)

/-- The stores after the verdict `equals` was recorded for `members`. -/
structure Settled (equals : Bool) (members : List Comparison) (s s' : State) : Prop where
  scc : s'.scc = s.scc
  known : ∀ c, s'.known.lookup c =
    if c ∈ members then some ((s.known.lookup c).getD equals) else s.known.lookup c
  provisional : ∀ c, s'.provisional.lookup c =
    if c ∈ members then none else s.provisional.lookup c
  outcomes : ∀ c, s'.outcomes.lookup c =
    if c ∈ members ∧ equals = false then
      (s.outcomes.lookup c).or (s.provisional.lookup c)
    else s.outcomes.lookup c

theorem Settled.keeps_known {equals : Bool} {members : List Comparison} {s s' : State}
    (settled : Settled equals members s s') {c : Comparison} {verdict : Bool}
    (known : s.known.lookup c = some verdict) : s'.known.lookup c = some verdict := by
  rw [settled.known]
  split <;> simp [known]

theorem Settled.keeps_outcomes {equals : Bool} {members : List Comparison} {s s' : State}
    (settled : Settled equals members s s') {c : Comparison} {diff : Diff}
    (held : s.outcomes.lookup c = some diff) : s'.outcomes.lookup c = some diff := by
  rw [settled.outcomes]
  split <;> simp [held]

/-- The code runs to the same end over every monad that lies under the stores. -/
def Runs {α : Type} (code : (n : Type → Type) → [Monad n] → [MonadExceptOf Error n] → StateT State n α)
    (s : State) (a : α) (s' : State) : Prop :=
  ∀ (n : Type → Type) [Monad n] [LawfulMonad n] [MonadExceptOf Error n],
    (code n).run s = pure (a, s')

theorem settle_run {s : State} {c : Comparison} {diff : Diff}
    (present : s.provisional.lookup c = some diff) (equals : Bool) :
    ∃ s', Runs (fun _ => settle equals c) s () s' ∧ Settled equals [c] s s' := by
  refine ⟨{ s with
    known := emplace s.known c equals
    outcomes := if equals then s.outcomes else emplace s.outcomes c diff
    provisional := s.provisional.erase c }, fun n _ _ _ => ?_, ?_⟩
  · simp only [settle, StateT.run_bind, StateT.run_modify, StateT.run_get, pure_bind, present]
  · refine ⟨rfl, fun d => ?_, fun d => ?_, fun d => ?_⟩
    · rw [lookup_emplace]
      by_cases same : d = c
      · subst same; simp
      · simp [same]
    · by_cases same : d = c
      · subst same; simp
      · simp [same, AList.lookup_erase_ne same]
    · cases equals with
      | true => simp
      | false =>
        simp only [Bool.false_eq_true, ↓reduceIte, List.mem_singleton, and_true, lookup_emplace]
        by_cases same : d = c
        · subst same
          cases s.outcomes.lookup d <;> simp [present]
        · simp [same]

/-- Settling members one after the other, each with its own provisional entry. -/
theorem settle_all {members : List Comparison} (nodup : members.Nodup) {s : State}
    (present : ∀ c ∈ members, s.provisional.lookup c ≠ none) (equals : Bool) :
    ∃ s', Runs (fun _ => members.forM (settle equals)) s () s' ∧ Settled equals members s s' := by
  induction members generalizing s with
  | nil => exact ⟨s, fun n _ _ _ => rfl, rfl, by simp, by simp, by simp⟩
  | cons c members ih =>
    obtain ⟨fresh, nodup⟩ := List.nodup_cons.mp nodup
    obtain ⟨diff, held⟩ := Option.ne_none_iff_exists'.mp (present c (by simp))
    obtain ⟨s₁, ran₁, settled₁⟩ := settle_run held equals
    have other : ∀ d ∈ members, d ≠ c := fun d among same => fresh (same ▸ among)
    obtain ⟨s₂, ran₂, settled₂⟩ := ih nodup (s := s₁) fun d among => by
      rw [settled₁.provisional, if_neg (by simpa using other d among)]
      exact present d (by simp [among])
    refine ⟨s₂, fun n _ _ _ => ?_, settled₂.scc.trans settled₁.scc, fun d => ?_, fun d =>
      ?_, fun d => ?_⟩
    · change StateT.run (settle equals c >>= fun _ => members.forM (settle equals)) s = _
      rw [StateT.run_bind, ran₁ n, pure_bind]
      exact ran₂ n
    · rw [settled₂.known, settled₁.known]
      by_cases same : d = c
      · subst same; simp [fresh]
      · simp [same]
    · rw [settled₂.provisional, settled₁.provisional]
      by_cases same : d = c
      · subst same; simp
      · simp [same]
    · rw [settled₂.outcomes, settled₁.outcomes, settled₁.provisional]
      by_cases same : d = c
      · subst same; simp [fresh]
      · simp [same]

variable {s : State} {c : Comparison} {handle : Nat} {result : Result}

theorem conclude_stay {scc : Scc Comparison} (closed : s.scc.closeNode handle = .ok ([], scc)) :
    Runs (fun _ => conclude c handle result) s (result.equals, some c)
      { s with provisional := emplace s.provisional c result.diff, scc } := by
  intro n _ _ _
  simp only [conclude, StateT.run_bind, StateT.run_modify, StateT.run_get, StateT.run_pure,
    pure_bind, closed, ofExcept_ok, List.isEmpty_nil, ↓reduceIte]

theorem conclude_root (c : Comparison) (result : Result) {members : List Comparison}
    {scc : Scc Comparison} (closed : s.scc.closeNode handle = .ok (members, scc))
    (nonempty : members ≠ [])
    (nodup : members.Nodup)
    (present : ∀ d ∈ members, (emplace s.provisional c result.diff).lookup d ≠ none) :
    ∃ s', Runs (fun _ => conclude c handle result) s
        (if result.equals then (true, none) else (false, some c)) s' ∧
      Settled result.equals members
        { s with provisional := emplace s.provisional c result.diff, scc } s' := by
  obtain ⟨s', ran, settled⟩ := settle_all nodup
    (s := { s with provisional := emplace s.provisional c result.diff, scc }) present result.equals
  refine ⟨s', fun n _ _ _ => ?_, settled⟩
  simp only [conclude, StateT.run_bind, StateT.run_modify, StateT.run_get, StateT.run_pure,
    pure_bind, closed, ofExcept_ok, List.isEmpty_iff, nonempty, ↓reduceIte, ran n]
  cases result.equals <;> rfl

end Stg
