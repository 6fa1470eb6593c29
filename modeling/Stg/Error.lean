set_option autoImplicit false

namespace Stg

/-- The ways a function of the program fails to return: it throws an
`stg::Exception`, it throws an exception of another type, which `main` does not
catch, it runs into undefined behaviour (an unset node, an index past the end,
`back` of an empty vector), or the fuel of its model runs out. -/
inductive Error where
  | exception (message : String)
  | uncaught (type : String)
  | undefined
  | outOfFuel
  deriving DecidableEq, Repr

section

variable {m : Type → Type} [Monad m] [MonadExceptOf Error m]

def check (ok : Bool) (message : String) : m Unit :=
  if ok then pure () else throw (.exception message)

def die {α : Type} (message : String) : m α :=
  throw (.exception message)

end

theorem bind_eq_ok {α β : Type} {x : Except Error α} {f : α → Except Error β} {b : β}
    (held : x >>= f = .ok b) : ∃ a, x = .ok a ∧ f a = .ok b := by
  cases x with
  | error => cases held
  | ok a => exact ⟨a, rfl, held⟩

end Stg
