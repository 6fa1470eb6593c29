import Stg.Lib.Ends

set_option autoImplicit false

/- Refinement between calls over two states, of which one is a part of the other. -/

variable {ε σ τ α β γ δ : Type}

/-- Where the call returns, so does the other one: with a related value, and with the part
of the state that the call leaves. The states of the call keep `kept`. -/
def EStateM.Refines (project : σ → τ) (kept : σ → Prop) (s : σ) (call : EStateM ε σ α)
    (other : EStateM ε τ γ) (related : α → γ → Prop) : Prop :=
  call.Ends s (fun value s' => kept s' ∧
    ∃ value', other.run (project s) = .ok value' (project s') ∧ related value value')
    (fun _ _ => True)

namespace EStateM.Refines

variable {project : σ → τ} {kept : σ → Prop} {s : σ} {call : EStateM ε σ α} {other : EStateM ε τ γ}
  {related : α → γ → Prop}

theorem pure {value : α} {value' : γ} (keeps : kept s) (holds : related value value') :
    Refines project kept s (Pure.pure value : EStateM ε σ α) (Pure.pure value') related :=
  ⟨keeps, value', rfl, holds⟩

theorem modified {f : σ → σ} {f' : τ → τ} (keeps : kept (f s))
    (same : f' (project s) = project (f s)) :
    Refines project kept s (modify f : EStateM ε σ Unit) (modify f') fun _ _ => True :=
  ⟨keeps, (), congrArg (EStateM.Result.ok ()) same, trivial⟩

theorem modify_bind {f : σ → σ} {f' : τ → τ} {rest : PUnit → EStateM ε σ α}
    {rest' : PUnit → EStateM ε τ γ}
    (same : f' (project s) = project (f s))
    (refines : Refines project kept (f s) (rest ⟨⟩) (rest' ⟨⟩) related) :
    Refines project kept s (modify f >>= rest) (modify f' >>= rest') related := by
  apply EStateM.Ends.modify_bind
  apply EStateM.Ends.imp refines
  · rintro value s' ⟨keeps, value', ran, holds⟩
    rw [← same] at ran
    exact ⟨keeps, value', ran, holds⟩
  · exact fun _ _ _ => trivial

theorem get_bind {rest : σ → EStateM ε σ α} {rest' : τ → EStateM ε τ γ}
    (refines : Refines project kept s (rest s) (rest' (project s)) related) :
    Refines project kept s (MonadState.get >>= rest) (MonadState.get >>= rest') related := refines

theorem bind {rest : α → EStateM ε σ β} {rest' : γ → EStateM ε τ δ} {related' : β → δ → Prop}
    (first : Refines project kept s call other related)
    (second : ∀ value value' s', kept s' → related value value' →
      Refines project kept s' (rest value) (rest' value') related') :
    Refines project kept s (call >>= rest) (other >>= rest') related' := by
  apply EStateM.Ends.bind first
  rintro value s₁ ⟨keeps, value', ran, holds⟩
  apply (second value value' s₁ keeps holds).imp
  · rintro last s₂ ⟨keeps', last', ran', holds'⟩
    exact ⟨keeps', last', by rw [EStateM.run_bind_of_ok ran, ran'], holds'⟩
  · exact fun _ _ _ => trivial

/-- A call that leaves the part alone can be left out. -/
theorem skip {rest : α → EStateM ε σ β} {other : EStateM ε τ δ} {related : β → δ → Prop}
    {fact : α → Prop} {raised : ε → σ → Prop}
    (first : call.Ends s (fun value s' => kept s' ∧ project s' = project s ∧ fact value) raised)
    (second : ∀ value s', kept s' → fact value →
      Refines project kept s' (rest value) other related) :
    Refines project kept s (call >>= rest) other related := by
  apply EStateM.Ends.bind (first.imp (fun _ _ => id) fun _ _ _ => trivial)
  rintro value s₁ ⟨keeps, same, holds⟩
  unfold Refines at second
  rw [← same]
  exact second value s₁ keeps holds

/-- What comes after the other one has ended. -/
theorem after {rest : α → EStateM ε σ β} {related' : β → γ → Prop}
    (first : Refines project kept s call other related)
    (second : ∀ value value' s', kept s' → related value value' →
      Refines project kept s' (rest value) (Pure.pure value') related') :
    Refines project kept s (call >>= rest) other related' := by
  have both := first.bind second
  rwa [bind_pure] at both

theorem imp {related' : α → γ → Prop} (refines : Refines project kept s call other related)
    (weaker : ∀ value value', related value value' → related' value value') :
    Refines project kept s call other related' := by
  apply EStateM.Ends.imp refines
  · rintro value s' ⟨keeps, value', ran, holds⟩
    exact ⟨keeps, value', ran, weaker value value' holds⟩
  · exact fun _ _ _ => trivial

end EStateM.Refines
