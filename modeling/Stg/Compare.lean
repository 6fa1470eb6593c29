import Stg.Equals
import Stg.Scc
import Stg.Lib.Entries

set_option autoImplicit false

namespace Stg

open Emplace (emplace)

abbrev Outcomes := AList fun _ : Comparison => Diff

/-- The stores of a comparison. The graph and the options never change and are
parameters of the functions. -/
structure State where
  known : AList (fun _ : Comparison => Bool) := ∅
  outcomes : Outcomes := ∅
  provisional : Outcomes := ∅
  scc : Scc Comparison := {}

section

variable {m : Type → Type} [Monad m] [MonadStateOf State m] [MonadExceptOf Error m]

def removed (node : Id) : m Comparison := do
  let comparison : Comparison := (some node, none)
  modify fun s => { s with outcomes := emplace s.outcomes comparison {} }
  pure comparison

def added (node : Id) : m Comparison := do
  let comparison : Comparison := (none, some node)
  modify fun s => { s with outcomes := emplace s.outcomes comparison {} }
  pure comparison

/-- Records the verdict of a member of a closed component, and its differences. -/
def settle (equals : Bool) (c : Comparison) : m Unit := do
  modify fun s => { s with known := emplace s.known c equals }
  match (← get).provisional.lookup c with
  | none => die "internal error: missing provisional diffs"
  | some diff =>
    modify fun s => { s with
      outcomes := if equals then s.outcomes else emplace s.outcomes c diff
      provisional := s.provisional.erase c }

/-- Step 6: store the provisional differences and close the comparison. -/
def conclude (comparison : Comparison) (handle : Nat) (result : Result) : m Answer := do
  modify fun s => { s with provisional := emplace s.provisional comparison result.diff }
  let (comparisons, scc) ← ofExcept ((← get).scc.closeNode handle)
  modify fun s => { s with scc }
  if comparisons.isEmpty then
    -- both are tentative as the comparison is still open
    pure (result.equals, some comparison)
  else
    comparisons.forM (settle result.equals)
    if result.equals then pure (true, none) else pure (false, some comparison)

/-- One activation of `Compare`, given what it does between opening and closing. -/
def compareBody (examination : Id → Id → m Result) (node1 node2 : Id) : m Answer := do
  let comparison : Comparison := (some node1, some node2)
  -- 1. Check if the comparison has an already known result.
  match (← get).known.lookup comparison with
  | some true => pure (true, none)
  | some false => pure (false, some comparison)
  | none =>
    -- 2. Record the comparison with the component finder.
    let (handle, scc) ← ofExcept ((← get).scc.openNode comparison)
    modify fun s => { s with scc }
    match handle with
    | none => pure (true, some comparison)
    | some handle =>
      -- 3. to 5. Examine the two nodes.
      let result ← examination node1 node2
      conclude comparison handle result

end

abbrev CompareM := StateT State (Except Error)

/-- `Compare`; the fuel bounds the depth of the recursion and the length of every
walk that is not guarded by the component finder. -/
def compare (graph : Graph) (options : CompareOptions) : Nat → Id → Id → CompareM Answer
  | 0, _, _ => throw .outOfFuel
  | fuel + 1, node1, node2 =>
    compareBody (examine ⟨compare graph options fuel, removed, added⟩ graph options fuel) node1 node2

/-- The outcome of one call of `Compare` on a state. -/
def runCompare (graph : Graph) (options : CompareOptions) (fuel : Nat) (s : State)
    (node1 node2 : Id) : Except Error (Answer × State) :=
  (compare graph options fuel node1 node2).run s

end Stg
