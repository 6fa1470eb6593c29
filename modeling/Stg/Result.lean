import Stg.Graph

set_option autoImplicit false

namespace Stg

/-- How a value is written to a stream. -/
class Print (α : Type) where
  print : α → String

export Print (print)

instance : Print String := ⟨id⟩
instance : Print Bool := ⟨fun value => if value then "1" else "0"⟩
instance : Print UInt32 := ⟨toString⟩
instance : Print UInt64 := ⟨toString⟩
instance : Print Int64 := ⟨toString⟩
instance : Print CRC := ⟨fun crc => "0x" ++ String.ofList (Nat.toDigits 16 crc.number.toNat)⟩

def spaces (indent : Nat) : String := String.ofList (List.replicate indent ' ')

instance : Print Qualifier where
  print
    | .const => "const"
    | .volatile => "volatile"
    | .restrict => "restrict"

instance : Print Integer.Encoding where
  print
    | .boolean => "boolean"
    | .signedInteger => "signed integer"
    | .unsignedInteger => "unsigned integer"
    | .signedCharacter => "signed character"
    | .unsignedCharacter => "unsigned character"
    | .utf => "UTF"

instance : Print BaseClass.Inheritance where
  print
    | .nonVirtual => "non-virtual"
    | .virtual => "virtual"

instance : Print Method.Kind where
  print
    | .nonVirtual => "non-virtual"
    | .static => "static"
    | .virtual => "virtual"

instance : Print StructUnion.Kind where
  print
    | .class_ => "class"
    | .struct => "struct"
    | .union => "union"

instance : Print ElfSymbol.SymbolType where
  print
    | .object => "variable"
    | .function => "function"
    | .common => "common"
    | .tls => "TLS"

instance : Print ElfSymbol.Binding where
  print
    | .global => "global"
    | .local_ => "local"
    | .weak => "weak"
    | .gnuUnique => "GNU unique"

instance : Print ElfSymbol.Visibility where
  print
    | .default => "default"
    | .protected_ => "protected"
    | .hidden => "hidden"
    | .internal => "internal"

/-- `std::quoted` with a single quote as delimiter. -/
def quoted (text : String) : String :=
  let delimiter := Char.ofNat 39
  let escape := Char.ofNat 92
  let body := text.toList.flatMap fun c =>
    if c = delimiter ∨ c = escape then [escape, c] else [c]
  String.ofList (delimiter :: body ++ [delimiter])

abbrev Comparison := Option Id × Option Id

structure DiffDetail where
  text : String
  edge : Option Comparison
  deriving DecidableEq, Repr

structure Diff where
  holdsChanges : Bool := false
  hasChanges : Bool := false
  details : List DiffDetail := []
  deriving DecidableEq, Repr

def Diff.add (diff : Diff) (text : String) (comparison : Option Comparison) : Diff :=
  { diff with details := diff.details ++ [⟨text, comparison⟩] }

/-- What a call of `Compare` returns. -/
abbrev Answer := Bool × Option Comparison

structure Result where
  equals : Bool := true
  diff : Diff := {}
  deriving DecidableEq, Repr

def changeText {α : Type} [Print α] (text : String) (before after : α) : String :=
  text ++ " changed from " ++ print before ++ " to " ++ print after

namespace Result

/-- Used when two nodes cannot be meaningfully compared. -/
def markIncomparable (result : Result) : Result :=
  { result with equals := false, diff := { result.diff with hasChanges := true } }

/-- Used when a node attribute has changed. -/
def addNodeDiff (result : Result) (text : String) : Result :=
  { equals := false, diff := { result.diff with hasChanges := true }.add text none }

section

variable {α : Type} [DecidableEq α] [Print α]

/-- Used when a node attribute may have changed. -/
def maybeAddNodeDiff (result : Result) (text : String) (before after : α) : Result :=
  if before ≠ after then result.addNodeDiff (changeText text before after) else result

/-- Used when node attributes are optional values. -/
def maybeAddOptionalNodeDiff (result : Result) (text : String) :
    Option α → Option α → Result
  | some before, some after => result.maybeAddNodeDiff text before after
  | some before, none => result.addNodeDiff (text ++ print before ++ " was removed")
  | none, some after => result.addNodeDiff (text ++ print after ++ " was added")
  | none, none => result

end

/-- Used when an edge has been removed or added. -/
def addEdgeDiff (result : Result) (text : String) (comparison : Comparison) : Result :=
  { equals := false, diff := result.diff.add text (some comparison) }

/-- Used when an edge to a possible comparison is present. -/
def maybeAddEdgeDiff (result : Result) (text : String) (p : Answer) : Result :=
  { equals := result.equals && p.1
    diff := if p.2.isSome then result.diff.add text p.2 else result.diff }

end Result

structure CompareOptions where
  ignoreSymbolTypePresenceChanges : Bool := false
  ignoreTypeDeclarationStatusChanges : Bool := false
  deriving DecidableEq, Repr

end Stg
