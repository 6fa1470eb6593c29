import Stg.Result
import Stg.Lib.Regex
import Mathlib.Algebra.Order.Ring.Nat

set_option autoImplicit false

/- The passes over the lines of a report that make it short. -/
namespace Stg

open Regex (Piece)

/-- What `.` matches. -/
def inLine (c : Char) : Bool := c ≠ '\n' && c ≠ '\r'

def isSpace (c : Char) : Bool := c = ' '

def text (t : String) : Piece Char := .plain (.text t.toList)

/-- `.*` -/
def anything : Piece Char := .plain (.many inLine)

/-- `^.* symbol .* changed$` -/
def symbolChangedRe : List (Piece Char) := [anything, text " symbol ", anything, text " changed"]

/-- `^  CRC changed from [^ ]* to [^ ]*$` -/
def crcRe : List (Piece Char) :=
  [text "  CRC changed from ", .plain (.many fun c => !isSpace c), text " to ",
    .plain (.many fun c => !isSpace c)]

/-- `^$` -/
def emptyRe : List (Piece Char) := []

/-- `^[^ \n].*$` -/
def sectionRe : List (Piece Char) := [.plain (.one fun c => !isSpace c && c ≠ '\n'), anything]

/-- `^.* symbol .*$` -/
def symbolRe : List (Piece Char) := [anything, text " symbol ", anything]

/-- `^( *)member ('.*') changed$` -/
def memberChangedRe : List (Piece Char) :=
  [.group [.many isSpace], text "member ",
    .group [.text ['\x27'], .many inLine, .text ['\x27']], text " changed"]

/-- `^( *)offset changed from (\d+) to (\d+)$` -/
def offsetChangedRe : List (Piece Char) :=
  [.group [.many isSpace], text "offset changed from ", .group [.one Char.isDigit, .many Char.isDigit],
    text " to ", .group [.one Char.isDigit, .many Char.isDigit]]

/-- `^( *).*$` -/
def indentRe : List (Piece Char) := [.group [.many isSpace], anything]

/-- `^(.*) symbol (.*) was (added|removed)$` -/
def addedRemovedRe : List (Piece Char) :=
  [.group [.many inLine], text " symbol ", .group [.many inLine], text " was ",
    .group [.either ["added".toList, "removed".toList]]]

/-- The captures of `std::regex_match`. -/
def regexMatch (re : List (Piece Char)) (line : String) : Option (List String) :=
  (Regex.match_ re line.toList).map fun captures => captures.map String.ofList

section CRC

def omittedText (omitted changes : Nat) : String :=
  "... " ++ toString omitted ++ " omitted; " ++ toString changes ++ " symbols have only CRC changes"

/-- What `emit_pending` appends: the first changes, and how many are left out. -/
def emitCRCOnly (limit : Nat) (pending : List (String × String)) : List String :=
  (pending.take limit).flatMap (fun change => [change.1, change.2, ""]) ++
    if pending.length > limit then [omittedText (pending.length - limit) pending.length, ""] else []

def isSection (line : String) : Bool :=
  (regexMatch sectionRe line).isSome && !(regexMatch symbolRe line).isSome

def isCRCOnly (line1 line2 line3 : String) : Bool :=
  (regexMatch symbolChangedRe line1).isSome && (regexMatch crcRe line2).isSome &&
    (regexMatch emptyRe line3).isSome

def summariseCRCLoop (limit : Nat) :
    List String → List (String × String) → List String → List String
  | [], pending, newReport => newReport ++ emitCRCOnly limit pending
  | line :: line2 :: line3 :: rest, pending, newReport =>
    if isSection line then
      summariseCRCLoop limit (line2 :: line3 :: rest) []
        (newReport ++ emitCRCOnly limit pending ++ [line])
    else if isCRCOnly line line2 line3 then
      -- two extra lines are consumed
      summariseCRCLoop limit rest (pending ++ [(line, line2)]) newReport
    else summariseCRCLoop limit (line2 :: line3 :: rest) pending (newReport ++ [line])
  | line :: report, pending, newReport =>
    if isSection line then
      summariseCRCLoop limit report [] (newReport ++ emitCRCOnly limit pending ++ [line])
    else summariseCRCLoop limit report pending (newReport ++ [line])

def summariseCRCChanges (report : List String) (limit : Nat) : List String :=
  summariseCRCLoop limit report [] []

end CRC

section Offsets

/-- A member whose offset alone has changed. -/
structure OffsetChange where
  indent : Nat
  offset : Int
  member : String
  deriving DecidableEq, Repr

def stoll (digits : String) : Except Error Int :=
  let value := Nat.ofDigitChars 10 digits.toList 0
  if value < 2 ^ 63 then .ok value else .error (.uncaught "std::out_of_range")

def offsetChange (line1 line2 line3 : String) : Except Error (Option OffsetChange) :=
  match regexMatch memberChangedRe line1, regexMatch offsetChangedRe line2,
    regexMatch indentRe line3 with
  | some [indent1, member], some [indent2, old, new], some [indent3] =>
    if indent1.length + 2 = indent2.length ∧ indent1.length ≥ indent3.length then do
      let new ← stoll new
      let old ← stoll old
      pure (some ⟨indent1.length, new - old, member⟩)
    else pure none
  | _, _, _ => pure none

structure OffsetState where
  indent : Nat := 0
  offset : Int := 0
  vars : List String := []
  newReport : List String := []
  deriving DecidableEq, Repr

def offsetLines (indent : Nat) (offset : Int) : List String → List String
  | [] => []
  | first :: rest =>
    [spaces indent ++
      (if rest.isEmpty then "member " ++ first ++ " changed"
        else toString (rest.length + 1) ++ " members (" ++ first ++ " .. " ++
          rest.getLastD first ++ ") changed"),
      spaces indent ++ "  offset changed by " ++ toString offset]

def OffsetState.emitPending (state : OffsetState) : OffsetState :=
  { state with
    newReport := state.newReport ++ offsetLines state.indent state.offset state.vars
    vars := [] }

def OffsetState.pushLine (state : OffsetState) (line : String) : OffsetState :=
  let state := state.emitPending
  { state with newReport := state.newReport ++ [line] }

def OffsetState.pushChange (state : OffsetState) (change : OffsetChange) : OffsetState :=
  let state :=
    if change.indent ≠ state.indent ∨ change.offset ≠ state.offset then
      { state.emitPending with indent := change.indent, offset := change.offset }
    else state
  { state with vars := state.vars ++ [change.member] }

def summariseOffsetLoop : List String → OffsetState → Except Error OffsetState
  | [], state => pure state.emitPending
  | line1 :: line2 :: line3 :: rest, state => do
    match ← offsetChange line1 line2 line3 with
    | some change =>
      -- one extra line is consumed
      summariseOffsetLoop (line3 :: rest) (state.pushChange change)
    | none => summariseOffsetLoop (line2 :: line3 :: rest) (state.pushLine line1)
  | line1 :: report, state => summariseOffsetLoop report (state.pushLine line1)

def summariseOffsetChanges (report : List String) : Except Error (List String) := do
  let state ← summariseOffsetLoop report {}
  pure state.newReport

end Offsets

section Symbols

/-- The symbols of each kind, in the order of kinds. -/
abbrev PendingKinds := List (String × List String)

def pushSymbol (kind symbol : String) : PendingKinds → PendingKinds
  | [] => [(kind, [symbol])]
  | (other, symbols) :: rest =>
    if kind = other then (other, symbols ++ [symbol]) :: rest
    else if kind < other then (kind, [symbol]) :: (other, symbols) :: rest
    else (other, symbols) :: pushSymbol kind symbol rest

def symbolGroup (which kind : String) (symbols : List String) : List String :=
  if symbols.isEmpty then []
  else (toString symbols.length ++ " " ++ kind ++ " symbol(s) " ++ which) ::
    symbols.map ("  " ++ ·) ++ [""]

def emitSymbols (pending : String → PendingKinds) : List String :=
  ["removed", "added"].flatMap fun which =>
    (pending which).flatMap fun kind => symbolGroup which kind.1 kind.2

/-- The kinds stay in the map when their symbols have been taken out. -/
def clearSymbols (pending : String → PendingKinds) : String → PendingKinds := fun which =>
  if which = "removed" ∨ which = "added" then (pending which).map fun kind => (kind.1, [])
  else pending which

/-- The kind, the description and the direction of a symbol, if the next line is empty. -/
def addedRemovedSymbol (line line2 : String) : Option (String × String × String) :=
  match regexMatch addedRemovedRe line with
  | some [kind, symbol, which] =>
    if (regexMatch emptyRe line2).isSome then some (kind, symbol, which) else none
  | _ => none

def groupSymbolsLoop : List String → (String → PendingKinds) → List String → List String
  | [], pending, newReport => newReport ++ emitSymbols pending
  | line :: line2 :: rest, pending, newReport =>
    match addedRemovedSymbol line line2 with
    | some (kind, symbol, which) =>
      -- one extra line is consumed
      groupSymbolsLoop rest
        (Function.update pending which (pushSymbol kind symbol (pending which))) newReport
    | none => groupSymbolsLoop (line2 :: rest) (clearSymbols pending)
        (newReport ++ emitSymbols pending ++ [line])
  | line :: report, pending, newReport =>
    groupSymbolsLoop report (clearSymbols pending) (newReport ++ emitSymbols pending ++ [line])

def groupRemovedAddedSymbols (report : List String) : List String :=
  groupSymbolsLoop report (fun _ => []) []

end Symbols

def postProcess (report : List String) (maxCRCOnlyChanges : Nat) : Except Error (List String) :=
  let newReport := summariseCRCChanges report maxCRCOnlyChanges
  let newReport := groupRemovedAddedSymbols newReport
  summariseOffsetChanges newReport

end Stg
