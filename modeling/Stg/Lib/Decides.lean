import Stg.Lib.Ends

set_option autoImplicit false

/- When a call over a state returns. -/

variable {ε σ α β : Type}

/-- The call returns if and only if `ok`. -/
def EStateM.Decides (call : EStateM ε σ α) (s : σ) (ok : Prop) : Prop :=
  call.Ends s (fun _ _ => ok) (fun _ _ => ¬ ok)

namespace EStateM.Decides

variable {call : EStateM ε σ α} {rest : α → EStateM ε σ β} {s : σ} {ok ok' : Prop}
  {returned : α → σ → Prop} {raised : ε → σ → Prop}

theorem pure {value : α} : Decides (Pure.pure value : EStateM ε σ α) s True := trivial

theorem throw {reason : ε} : Decides (MonadExcept.throw reason : EStateM ε σ α) s False := id

theorem congr (decides : call.Decides s ok) (same : ok ↔ ok') : call.Decides s ok' := by
  rwa [propext same] at decides

theorem returns_iff (decides : call.Decides s ok) :
    (∃ value s', call.run s = .ok value s') ↔ ok := by
  constructor
  · rintro ⟨value, s', ran⟩
    exact Ends.returns decides ran
  · intro holds
    cases ran : call.run s with
    | ok value s' => exact ⟨value, s', rfl⟩
    | error reason s' => exact absurd holds (Ends.raises decides ran)

/-- The rest decides once the call has: what it returns is known by another lemma. -/
theorem bind (first : call.Decides s ok) (ends : call.Ends s returned raised)
    (second : ∀ value s', returned value s' → ok → (rest value).Decides s' ok') :
    (call >>= rest).Decides s (ok ∧ ok') := by
  unfold Decides Ends
  rw [EStateM.run_bind]
  cases ran : call.run s with
  | ok value s' =>
    have holds := Ends.returns first ran
    exact (second value s' (Ends.returns ends ran) holds).congr (by simp [holds])
  | error reason s' =>
    have fails := Ends.raises first ran
    exact fun both => fails both.1

theorem bind_sure (first : call.Decides s True) (ends : call.Ends s returned raised)
    (second : ∀ value s', returned value s' → (rest value).Decides s' ok) :
    (call >>= rest).Decides s ok :=
  (first.bind ends fun value s' holds _ => second value s' holds).congr (iff_of_eq (true_and _))

theorem get_bind {rest : σ → EStateM ε σ β} (decides : (rest s).Decides s ok) :
    (MonadState.get >>= rest).Decides s ok := decides

theorem modify_bind {f : σ → σ} {rest : PUnit → EStateM ε σ β}
    (decides : (rest ⟨⟩).Decides (f s) ok) :
    (modify f >>= rest).Decides s ok := decides

end EStateM.Decides
