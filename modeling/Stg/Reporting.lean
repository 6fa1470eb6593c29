import Stg.Naming
import Stg.Compare

set_option autoImplicit false

/- The printers of the diff graph. What they write is kept in pieces, each marked
with the comparison it is about. -/
namespace Stg

inductive Piece where
  | text (content : String)
  /-- What `PrintComparison` writes. -/
  | comparison (c : Comparison) (content : String)
  /-- The line of a node difference. -/
  | change (c : Comparison) (content : String)
  deriving DecidableEq, Repr

def Piece.content : Piece → String
  | .text content => content
  | .comparison _ content => content
  | .change _ content => content

/-- The text of a report. -/
def render (pieces : List Piece) : String := String.join (pieces.map Piece.content)

/-- Describes a comparison; one-sided ones are described completely. -/
def printComparison (graph : Graph) (fuel : Nat) : Comparison → NameM (Bool × String)
  | (some id1, none) => do
    let node1 ← ofExcept (graph.get id1)
    let description ← getDescription graph fuel id1
    pure (true, node1.getKindDescription ++ " \x27" ++ print description ++ "\x27" ++
      node1.extraDescription ++ " was removed\n")
  | (none, some id2) => do
    let node2 ← ofExcept (graph.get id2)
    let description ← getDescription graph fuel id2
    pure (true, node2.getKindDescription ++ " \x27" ++ print description ++ "\x27" ++
      node2.extraDescription ++ " was added\n")
  | (some id1, some id2) => do
    let node1 ← ofExcept (graph.get id1)
    let description1 ← getResolvedDescription graph fuel id1
    let description2 ← getResolvedDescription graph fuel id2
    pure (false, node1.getKindDescription ++ " " ++
      if description1 = description2 then description1 ++ " changed"
      else "changed from " ++ description1 ++ " to " ++ description2)
  | (none, none) => throw .undefined

def indentIncrement : Nat := 2

/-- The text of an edge, as it stands before the comparison the edge leads to. -/
def edgeText (indent : Nat) (text : String) : Piece :=
  .text (spaces indent ++ text ++ if text ≠ "" then " " else "")

/-- The line of a detail without an edge. -/
def changeLine (c : Comparison) (indent : Nat) (detail : DiffDetail) : Piece :=
  .change c (spaces indent ++ detail.text ++ "\n")

def missingComparison : String := "internal error: missing comparison"

section Plain

/-- Started (false) or finished (true). -/
abbrev Seen := AList fun _ : Comparison => Bool

abbrev PlainM := StateT Seen NameM

def printDetail (print : Comparison → Nat → PlainM (List Piece)) (c : Comparison) (indent : Nat)
    (detail : DiffDetail) : PlainM (List Piece) :=
  match detail.edge with
  | none => pure [changeLine c indent detail]
  | some edge => do
    let pieces ← print edge indent
    pure (edgeText indent detail.text :: pieces)

def printDetails (print : Comparison → Nat → PlainM (List Piece)) (c : Comparison) (indent : Nat) :
    List DiffDetail → PlainM (List Piece)
  | [] => pure []
  | detail :: details => do
    let own ← printDetail print c indent detail
    let rest ← printDetails print c indent details
    -- paragraph spacing
    pure (own ++ (if indent = 0 then [.text "\n"] else []) ++ rest)

def printPlain (graph : Graph) (outcomes : Outcomes) :
    Nat → Comparison → Nat → PlainM (List Piece)
  | 0, _, _ => throw .outOfFuel
  | fuel + 1, c, indent => do
    let (oneSided, content) ← (printComparison graph fuel c : NameM _)
    if oneSided then pure [.comparison c content]
    else
      match outcomes.lookup c with
      | none => die missingComparison
      | some diff =>
        let seen ← get
        match if diff.holdsChanges then seen.lookup c else none with
        | some false => pure [.comparison c content, .text " (being reported)\n"]
        | some true =>
          pure [.comparison c content, .text (if diff.details ≠ [] then " (already reported)\n" else "")]
        | none =>
          modify fun seen => if diff.holdsChanges then seen.insert c false else seen
          let details ← printDetails (printPlain graph outcomes fuel) c (indent + indentIncrement)
            diff.details
          modify fun seen => if diff.holdsChanges then seen.insert c true else seen
          pure (.comparison c content :: .text "\n" :: details)

/-- The differences below the root, as a forest. -/
def reportPlain (graph : Graph) (outcomes : Outcomes) (fuel : Nat) (c : Comparison) :
    PlainM (List Piece) :=
  match outcomes.lookup c with
  | none => throw (.uncaught "std::out_of_range")
  | some diff => printDetails (printPlain graph outcomes fuel) c 0 diff.details

end Plain

section Flat

/-- The comparisons that were queued at some time, and those still to be printed. -/
structure Queue where
  seen : List Comparison := []
  todo : List Comparison := []

def Queue.push (queue : Queue) (c : Comparison) : Queue :=
  if c ∈ queue.seen then queue else ⟨queue.seen ++ [c], queue.todo ++ [c]⟩

abbrev FlatM := StateT Queue NameM

/-- The loop over the details of a comparison, with the flag and the text so far. -/
def flatDetails (print : Comparison → FlatM (Bool × List Piece)) (full : Bool) (c : Comparison)
    (indent : Nat) (state : Bool × List Piece) (detail : DiffDetail) :
    FlatM (Bool × List Piece) :=
  match detail.edge with
  | none =>
    pure (state.1, state.2 ++ [changeLine c indent detail])
  | some edge => do
    -- edge changes are interesting if the target diff node is
    let (subInteresting, pieces) ← print edge
    let sub := edgeText indent detail.text :: pieces
    pure (state.1 || subInteresting, if subInteresting || full then state.2 ++ sub else state.2)

/-- Prints down to the comparisons that can hold changes themselves and queues
those; the answer says whether what was printed is interesting. -/
def flatPrint (graph : Graph) (outcomes : Outcomes) (full : Bool) :
    Nat → Comparison → Bool → Nat → FlatM (Bool × List Piece)
  | 0, _, _, _ => throw .outOfFuel
  | fuel + 1, c, stop, indent => do
    let (oneSided, content) ← (printComparison graph fuel c : NameM _)
    if oneSided then pure (true, [.comparison c content])
    else
      match outcomes.lookup c with
      | none => die missingComparison
      | some diff =>
        let pieces := [.comparison c content, .text "\n"]
        if diff.holdsChanges && stop then
          modify fun queue => queue.push c
          pure (false, pieces)
        else if !diff.holdsChanges && !stop then
          die "internal error: FlatPrint called on inappropriate node"
        else
          let indent := indent + indentIncrement
          diff.details.foldlM (flatDetails
            (fun edge => flatPrint graph outcomes full fuel edge true indent) full c indent)
            (diff.hasChanges, pieces)

/-- The comparison that was printed at the top level, and what that adds to the report. -/
structure Section where
  comparison : Comparison
  pieces : List Piece
  deriving DecidableEq

/-- A section that is left out if it is not interesting. -/
def makeSection (full : Bool) (c : Comparison) (printed : Bool × List Piece) : Section :=
  ⟨c, if printed.1 || full then printed.2 ++ [.text "\n"] else []⟩

/-- The sections for the differences below the root. -/
def flatRoots (print : Comparison → FlatM (Bool × List Piece)) (full : Bool) :
    List DiffDetail → FlatM (List Section)
  | [] => pure []
  | detail :: details => do
    let edge ← deref detail.edge
    let printed ← print edge
    let rest ← flatRoots print full details
    pure (makeSection full edge printed :: rest)

/-- The sections for the queued comparisons. -/
def flatQueue (print : Comparison → FlatM (Bool × List Piece)) (full : Bool) :
    Nat → FlatM (List Section)
  | 0 => throw .outOfFuel
  | fuel + 1 => do
    match (← get).todo with
    | [] => pure []
    | c :: todo =>
      modify fun queue => { queue with todo }
      let printed ← print c
      let rest ← flatQueue print full fuel
      pure (makeSection full c printed :: rest)

structure FlatReport where
  roots : List Section
  queued : List Section
  deriving DecidableEq

/-- What the report consists of, in order. -/
def FlatReport.pieces (report : FlatReport) : List Piece :=
  (report.roots ++ report.queued).flatMap Section.pieces

def reportFlat (graph : Graph) (outcomes : Outcomes) (full : Bool) (fuel : Nat) (c : Comparison) :
    FlatM FlatReport :=
  match outcomes.lookup c with
  | none => throw (.uncaught "std::out_of_range")
  | some diff => do
    let roots ← flatRoots (fun edge => flatPrint graph outcomes full fuel edge true 0) full diff.details
    let queued ← flatQueue (fun c => flatPrint graph outcomes full fuel c false 0) full fuel
    pure ⟨roots, queued⟩

end Flat

section Viz

structure Viz where
  seen : List Comparison := []
  ids : List Comparison := []

abbrev VizM := StateT Viz NameM

/-- Numbers the comparisons in order of first use. -/
def vizId (c : Comparison) : VizM Nat := do
  let viz ← get
  if c ∈ viz.ids then pure (viz.ids.idxOf c)
  else
    set { viz with ids := viz.ids ++ [c] }
    pure viz.ids.length

def vizDetails (print : Comparison → VizM String) (node : Nat) :
    Nat → List DiffDetail → VizM String
  | _, [] => pure ""
  | index, detail :: details => do
    match detail.edge with
    | none =>
      -- attribute change, create an implicit edge and node
      let implicit := "\"" ++ toString node ++ ":" ++ toString index ++ "\""
      let rest ← vizDetails print node (index + 1) details
      pure ("  \"" ++ toString node ++ "\" -> " ++ implicit ++ "\n  " ++ implicit ++
        " [color=red, label=\"" ++ detail.text ++ "\"]\n" ++ rest)
    | some edge =>
      let sub ← print edge
      let target ← vizId edge
      let rest ← vizDetails print node index details
      pure (sub ++ "  \"" ++ toString node ++ "\" -> \"" ++ toString target ++ "\" [label=\"" ++
        detail.text ++ "\"]\n" ++ rest)

def vizPrint (graph : Graph) (outcomes : Outcomes) : Nat → Comparison → VizM String
  | 0, _ => throw .outOfFuel
  | fuel + 1, c => do
    if c ∈ (← get).seen then pure ""
    else
      modify fun viz => { viz with seen := viz.seen ++ [c] }
      let node ← vizId c
      match c with
      | (some id1, none) =>
        let description ← (getDescription graph fuel id1 : NameM _)
        let node1 ← ofExcept (graph.get id1)
        pure ("  \"" ++ toString node ++ "\" [color=red, label=\"removed(" ++ print description ++
          node1.extraDescription ++ ")\"]\n")
      | (none, some id2) =>
        let description ← (getDescription graph fuel id2 : NameM _)
        let node2 ← ofExcept (graph.get id2)
        pure ("  \"" ++ toString node ++ "\" [color=red, label=\"added(" ++ print description ++
          node2.extraDescription ++ ")\"]\n")
      | (none, none) => throw .undefined
      | (some id1, some id2) =>
        match outcomes.lookup c with
        | none => die missingComparison
        | some diff =>
          let colour := if diff.hasChanges then "color=red, " else ""
          let shape := if diff.holdsChanges then "shape=rectangle, " else ""
          let description1 ← (getResolvedDescription graph fuel id1 : NameM _)
          let description2 ← (getResolvedDescription graph fuel id2 : NameM _)
          let label := if description1 = description2 then description1
            else description1 ++ " -> " ++ description2
          let details ← vizDetails (vizPrint graph outcomes fuel) node 0 diff.details
          pure ("  \"" ++ toString node ++ "\" [" ++ colour ++ shape ++ "label=\"" ++ label ++
            "\"]\n" ++ details)

def reportViz (graph : Graph) (outcomes : Outcomes) (fuel : Nat) (c : Comparison) : VizM String := do
  let body ← vizPrint graph outcomes fuel c
  pure ("digraph \"ABI diff\" \x7b\n" ++ body ++ "\x7d\n")

end Viz

end Stg
