import Mathlib.Tactic.Common

set_option autoImplicit false

/- Relational reasoning about two computations. A relation between values is lifted to
one between the computations that return them, and further through states. -/
namespace Relational

/-- What makes relations between values relations between computations. -/
structure Lifting (ε : Type) (m m' : Type → Type) [Monad m] [Monad m'] [MonadExceptOf ε m]
    [MonadExceptOf ε m'] where
  rel : {α α' : Type} → (α → α' → Prop) → m α → m' α' → Prop
  pure : ∀ {α α' : Type} {R : α → α' → Prop} {value : α} {value' : α'}, R value value' →
    rel R (Pure.pure value) (Pure.pure value')
  bind : ∀ {α α' β β' : Type} {R : α → α' → Prop} {T : β → β' → Prop} {call : m α} {call' : m' α'}
    {rest : α → m β} {rest' : α' → m' β'}, rel R call call' →
    (∀ value value', R value value' → rel T (rest value) (rest' value')) →
    rel T (call >>= rest) (call' >>= rest')
  imp : ∀ {α α' : Type} {R T : α → α' → Prop} {call : m α} {call' : m' α'}, rel R call call' →
    (∀ value value', R value value' → T value value') → rel T call call'
  throw : ∀ {α α' : Type} {R : α → α' → Prop} (reason : ε),
    rel R (MonadExcept.throw reason) (MonadExcept.throw reason)

namespace Lifting

variable {ε : Type}

/-- Both return related values or both raise the same error. -/
def exactly (ε : Type) : Lifting ε (Except ε) (Except ε) where
  rel R call call' :=
    match call, call' with
    | .ok value, .ok value' => R value value'
    | .error reason, .error reason' => reason = reason'
    | _, _ => False
  pure related := related
  bind {_ _ _ _ _ _ call call' _ _} first second := by
    cases call <;> cases call'
    · exact first
    · exact first.elim
    · exact first.elim
    · exact second _ _ first
  imp {_ _ _ _ call call'} first weaker := by
    cases call <;> cases call'
    · exact first
    · exact first
    · exact first
    · exact weaker _ _ first
  throw _ := rfl

/-- The values are related where both computations return. -/
def both (ε : Type) : Lifting ε (Except ε) (Except ε) where
  rel R call call' := ∀ value value', call = .ok value → call' = .ok value' → R value value'
  pure related := by
    rintro _ _ ⟨⟩ ⟨⟩
    exact related
  bind {_ _ _ _ _ _ call call' _ _} first second := by
    intro last last' ran ran'
    cases call with
    | error => cases ran
    | ok value =>
      cases call' with
      | error => cases ran'
      | ok value' => exact second value value' (first value value' rfl rfl) last last' ran ran'
  imp first weaker := fun value value' ran ran' => weaker value value' (first value value' ran ran')
  throw _ := nofun

theorem exactly_map {α α' : Type} {g : α → α'} {call : Except ε α} {call' : Except ε α'} :
    (exactly ε).rel (fun value value' => value' = g value) call call' ↔ call' = call.map g := by
  cases call <;> cases call' <;> simp [exactly, Except.map, eq_comm]

section Through

variable {m m' : Type → Type} [Monad m] [Monad m'] [MonadExceptOf ε m] [MonadExceptOf ε m']
  {σ σ' α α' : Type} {R : α → α' → Prop}

/-- The same with states that are related before and after. -/
def state (L : Lifting ε m m') (S : σ → σ' → Prop) : Lifting ε (StateT σ m) (StateT σ' m') where
  rel {_ _} R call call' := ∀ s s', S s s' →
    L.rel (fun out out' => R out.1 out'.1 ∧ S out.2 out'.2) (call.run s) (call'.run s')
  pure related := by
    intro s s' states
    exact L.pure ⟨related, states⟩
  bind first second := by
    intro s s' states
    refine L.bind (first s s' states) ?_
    rintro ⟨value, s⟩ ⟨value', s'⟩ ⟨related, states⟩
    exact second value value' related s s' states
  imp first weaker := by
    intro s s' states
    refine L.imp (first s s' states) ?_
    rintro ⟨value, s⟩ ⟨value', s'⟩ ⟨related, states⟩
    exact ⟨weaker value value' related, states⟩
  throw {β β' _} reason := by
    intro s s' _
    have raised : L.rel (fun (_ : β) (_ : β') => False) (MonadExcept.throw reason)
        (MonadExcept.throw reason) := L.throw reason
    exact L.bind raised fun _ _ absurd => absurd.elim

variable {L : Lifting ε m m'} {S : σ → σ' → Prop}

theorem lift {call : m α} {call' : m' α'} (related : L.rel R call call') :
    (L.state S).rel R (StateT.lift call) (StateT.lift call') := fun _ _ states =>
  L.bind related fun _ _ held => L.pure ⟨held, states⟩

theorem get : (L.state S).rel S (get : StateT σ m σ) (get : StateT σ' m' σ') :=
  fun _ _ states => L.pure ⟨states, states⟩

theorem set {s : σ} {s' : σ'} (states : S s s') :
    (L.state S).rel (fun _ _ => True) (set s : StateT σ m PUnit) (set s' : StateT σ' m' PUnit) :=
  fun _ _ _ => L.pure ⟨trivial, states⟩

theorem modify {f : σ → σ} {f' : σ' → σ'} (keeps : ∀ s s', S s s' → S (f s) (f' s')) :
    (L.state S).rel (fun _ _ => True) (modify f : StateT σ m PUnit)
      (modify f' : StateT σ' m' PUnit) :=
  fun s s' states => L.pure ⟨trivial, keeps s s' states⟩

/-- A computation that returns the same goes before related ones. -/
theorem bind_same {α β β' : Type} {T : β → β' → Prop} {call : m α} {call' : m' α} {rest : α → m β}
    {rest' : α → m' β'} (first : L.rel (fun value value' => value' = value) call call')
    (second : ∀ value, L.rel T (rest value) (rest' value)) :
    L.rel T (call >>= rest) (call' >>= rest') := by
  refine L.bind first ?_
  rintro _ value rfl
  exact second value

/-- A loop over related lists, with related bodies, from related values. -/
theorem foldlM {β β' : Type} {T : β → β' → Prop} {step : β → α → m β} {step' : β' → α' → m' β'}
    {items : List α} {items' : List α'} (related : List.Forall₂ R items items')
    (steps : ∀ value value' item item', T value value' → R item item' →
      L.rel T (step value item) (step' value' item')) {value : β} {value' : β'}
    (held : T value value') : L.rel T (items.foldlM step value) (items'.foldlM step' value') := by
  induction related generalizing value value' with
  | nil => exact L.pure held
  | cons head _ ih => exact L.bind (steps _ _ _ _ held head) fun _ _ next => ih next

end Through

section Stateful

variable {σ σ' α α' : Type} {R : α → α' → Prop} {S : σ → σ' → Prop}

/-- The same for computations that keep their state when they raise an error: both end
in the same way, in related states. -/
def stateful (ε : Type) (S : σ → σ' → Prop) : Lifting ε (EStateM ε σ) (EStateM ε σ') where
  rel {_ _} R call call' := ∀ s s', S s s' →
    match call.run s, call'.run s' with
    | .ok value t, .ok value' t' => R value value' ∧ S t t'
    | .error reason t, .error reason' t' => reason = reason' ∧ S t t'
    | _, _ => False
  pure related := fun _ _ states => ⟨related, states⟩
  bind {_ _ _ _ _ _ call call' _ _} first second := by
    intro s s' states
    have both := first s s' states
    rw [EStateM.run_bind, EStateM.run_bind]
    cases ran : call.run s <;> cases ran' : call'.run s' <;> rw [ran, ran'] at both
    · exact second _ _ both.1 _ _ both.2
    · exact both.elim
    · exact both.elim
    · exact both
  imp {_ _ _ _ call call'} first weaker := by
    intro s s' states
    have both := first s s' states
    cases ran : call.run s <;> cases ran' : call'.run s' <;> rw [ran, ran'] at both
    · exact ⟨weaker _ _ both.1, both.2⟩
    · exact both.elim
    · exact both.elim
    · exact both
  throw _ := fun _ _ states => ⟨rfl, states⟩

variable {ε : Type}

theorem stateful_get : (stateful ε S).rel S (MonadState.get : EStateM ε σ σ)
    (MonadState.get : EStateM ε σ' σ') :=
  fun _ _ states => ⟨states, states⟩

theorem stateful_modify {f : σ → σ} {f' : σ' → σ'} (keeps : ∀ s s', S s s' → S (f s) (f' s')) :
    (stateful ε S).rel (fun _ _ => True) (modifyThe σ f : EStateM ε σ PUnit)
      (modifyThe σ' f' : EStateM ε σ' PUnit) :=
  fun s s' states => ⟨trivial, keeps s s' states⟩

end Stateful

end Lifting

end Relational
