import Mathlib.Tactic.Common

set_option autoImplicit false

/- How a call over a state ends: what holds when it returns and what holds when it
raises an error. -/

variable {ε σ α β : Type}

/-- The call returns with `returned` or raises an error with `raised`. -/
def EStateM.Ends (call : EStateM ε σ α) (s : σ) (returned : α → σ → Prop) (raised : ε → σ → Prop) :
    Prop :=
  match call.run s with
  | .ok value s' => returned value s'
  | .error reason s' => raised reason s'

namespace EStateM.Ends

variable {call : EStateM ε σ α} {rest : α → EStateM ε σ β} {s s' : σ}
  {returned returned' : α → σ → Prop} {after : β → σ → Prop} {raised raised' : ε → σ → Prop}

theorem pure {value : α} (holds : returned value s) :
    Ends (Pure.pure value : EStateM ε σ α) s returned raised := holds

theorem throw {reason : ε} (holds : raised reason s) :
    Ends (MonadExcept.throw reason : EStateM ε σ α) s returned raised := holds

theorem get_bind {rest : σ → EStateM ε σ β} (ends : (rest s).Ends s after raised) :
    (MonadState.get >>= rest).Ends s after raised := ends

theorem modified {f : σ → σ} {changed : Unit → σ → Prop} (holds : changed () (f s)) :
    Ends (modify f : EStateM ε σ Unit) s changed raised := holds

theorem modify_bind {f : σ → σ} {rest : PUnit → EStateM ε σ β}
    (ends : (rest ⟨⟩).Ends (f s) after raised) :
    (modify f >>= rest).Ends s after raised := ends

theorem bind (first : call.Ends s returned raised)
    (second : ∀ value s', returned value s' → (rest value).Ends s' after raised) :
    (call >>= rest).Ends s after raised := by
  unfold Ends at first ⊢
  rw [EStateM.run_bind]
  cases ran : call.run s with
  | ok value s' =>
    rw [ran] at first
    exact second value s' first
  | error reason s' =>
    rw [ran] at first
    exact first

theorem imp (ends : call.Ends s returned raised)
    (weaker : ∀ value s', returned value s' → returned' value s')
    (weaker' : ∀ reason s', raised reason s' → raised' reason s') :
    call.Ends s returned' raised' := by
  unfold Ends at ends ⊢
  cases ran : call.run s with
  | ok value s' =>
    rw [ran] at ends
    exact weaker value s' ends
  | error reason s' =>
    rw [ran] at ends
    exact weaker' reason s' ends

theorem returns {value : α} (ends : call.Ends s returned raised)
    (ran : call.run s = .ok value s') : returned value s' := by
  unfold Ends at ends
  rwa [ran] at ends

theorem raises {reason : ε} (ends : call.Ends s returned raised)
    (ran : call.run s = .error reason s') : raised reason s' := by
  unfold Ends at ends
  rwa [ran] at ends

end EStateM.Ends

/- Runs whose steps are known. -/

namespace EStateM

variable {call : EStateM ε σ α} {rest : α → EStateM ε σ β} {s s' s'' : σ} {value : α} {last : β}
  {reason : ε}

theorem run_bind_of_ok (ran : call.run s = .ok value s') :
    (call >>= rest).run s = (rest value).run s' := by
  rw [run_bind, ran]

theorem run_bind_of_error (ran : call.run s = .error reason s') :
    (call >>= rest).run s = .error reason s' := by
  rw [run_bind, ran]

theorem ok_of_run_bind (ran : (call >>= rest).run s = .ok last s'') :
    ∃ value s', call.run s = .ok value s' ∧ (rest value).run s' = .ok last s'' := by
  rw [run_bind] at ran
  cases first : call.run s with
  | ok value s' =>
    rw [first] at ran
    exact ⟨value, s', rfl, ran⟩
  | error reason s' =>
    rw [first] at ran
    cases ran

end EStateM
