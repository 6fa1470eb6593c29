import Stg.Graph

set_option autoImplicit false

/- The elements of a libxml tree, and how their attributes are read. -/
namespace Stg.AbiXml

/-- An element with its attributes and its child elements. -/
inductive Element where
  | mk (name : String) (attributes : List (String × String)) (children : List Element)

namespace Element

def name : Element → String
  | .mk name _ _ => name

def attributes : Element → List (String × String)
  | .mk _ attributes _ => attributes

def children : Element → List Element
  | .mk _ _ children => children

end Element

/-- `CheckElementName`, with its message. -/
def checkElementName (name : String) (element : Element) : Except Error Unit :=
  if element.name = name then .ok ()
  else die ("expected element '" ++ name ++ "' but got '" ++ element.name ++ "'")

def getOnlyChild (name : String) (element : Element) : Except Error Element :=
  match element.children with
  | [child] => .ok child
  | _ => die (name ++ " with not exactly one child element")

/-- `GetAttribute` distinguishes a missing attribute from an empty one. -/
def getAttribute (element : Element) (name : String) : Option String :=
  element.attributes.lookup name

def getAttributeOrDie (element : Element) (name : String) : Except Error String :=
  match getAttribute element name with
  | some value => .ok value
  | none => die ("element '" ++ element.name ++ "' missing attribute '" ++ name ++ "'")

/- What a stream extracts from all of a string. -/

def decimalDigit? (c : Char) : Option Nat :=
  if '0' ≤ c ∧ c ≤ '9' then some (c.toNat - '0'.toNat) else none

def hexadecimalDigit? (c : Char) : Option Nat :=
  if 'a' ≤ c ∧ c ≤ 'f' then some (c.toNat - 'a'.toNat + 10)
  else if 'A' ≤ c ∧ c ≤ 'F' then some (c.toNat - 'A'.toNat + 10)
  else decimalDigit? c

/-- The number that the digits stand for, after those that stand for `number`. -/
def parseDigits (digit? : Char → Option Nat) (radix : Nat) : Nat → List Char → Option Nat
  | number, [] => some number
  | number, c :: cs =>
    match digit? c with
    | some digit => parseDigits digit? radix (number * radix + digit) cs
    | none => none

/-- At least one digit is needed, and nothing may follow the digits. -/
def parseNumber (digit? : Char → Option Nat) (radix : Nat) (text : List Char) : Option Nat :=
  if text = [] then none else parseDigits digit? radix 0 text

/-- Whether there is a minus sign, and what follows the sign. -/
def splitSign : List Char → Bool × List Char
  | '-' :: text => (true, text)
  | '+' :: text => (false, text)
  | text => (false, text)

/-- A negative number is reduced modulo the size of the type. -/
def toUnsigned (negative : Bool) (number : Nat) : Option UInt64 :=
  if number < 2 ^ 64 then some (if negative then -number.toUInt64 else number.toUInt64) else none

def parseUInt64 (value : String) : Option UInt64 :=
  let (negative, text) := splitSign value.toList
  (parseNumber decimalDigit? 10 text).bind (toUnsigned negative)

/-- The range has one negative number more. -/
def parseInt64 (value : String) : Option Int64 :=
  let (negative, text) := splitSign value.toList
  match parseNumber decimalDigit? 10 text with
  | some number =>
    if negative then if number ≤ 2 ^ 63 then some (Int64.ofInt (-number)) else none
    else if number < 2 ^ 63 then some (Int64.ofInt number) else none
  | none => none

/-- The prefix of a hexadecimal number may be missing. -/
def skipRadix : List Char → List Char
  | '0' :: 'x' :: text => text
  | '0' :: 'X' :: text => text
  | text => text

def parseCRC (value : String) : Option CRC :=
  let (negative, text) := splitSign value.toList
  ((parseNumber hexadecimalDigit? 16 (skipRadix text)).bind (toUnsigned negative)).map CRC.mk

def isSpace (c : Char) : Bool :=
  c = ' ' || c = '\t' || c = '\n' || c = '\x0b' || c = '\x0c' || c = '\r'

/-- A stream stops at white space, so a value with any is not read whole. -/
def parseString (value : String) : Option String :=
  if value = "" ∨ value.toList.any isSpace then none else some value

/-- The words for enumerated attributes; any other word is a bad value. -/
def parseBool : String → Option Bool
  | "yes" => some true
  | "no" => some false
  | _ => none

def parseSymbolType : String → Option ElfSymbol.SymbolType
  | "object-type" => some .object
  | "func-type" => some .function
  | "common-type" => some .common
  | "tls-type" => some .tls
  | _ => none

def parseBinding : String → Option ElfSymbol.Binding
  | "global-binding" => some .global
  | "local-binding" => some .local_
  | "weak-binding" => some .weak
  | "gnu-unique-binding" => some .gnuUnique
  | _ => none

def parseVisibility : String → Option ElfSymbol.Visibility
  | "default-visibility" => some .default
  | "protected-visibility" => some .protected_
  | "hidden-visibility" => some .hidden
  | "internal-visibility" => some .internal
  | _ => none

/-- An array without a bound has length 0. -/
def parseLength (value : String) : Option UInt64 :=
  if value = "infinite" then some 0 else parseUInt64 value

def parseReferenceKind : String → Option PointerReference.Kind
  | "lvalue" => some .lvalueReference
  | "rvalue" => some .rvalueReference
  | _ => none

section

variable {α : Type} (parse : String → Option α) (element : Element) (name : String)

def getParsedValueOrDie (value : String) : Except Error α :=
  match parse value with
  | some parsed => .ok parsed
  | none => die ("element '" ++ element.name ++ "' has attribute '" ++ name ++
      "' with bad value '" ++ value ++ "'")

/-- The attribute must be there and must parse. -/
def readAttributeOrDie : Except Error α := do
  let value ← getAttributeOrDie element name
  getParsedValueOrDie parse element name value

def readAttribute? : Except Error (Option α) :=
  match getAttribute element name with
  | some value => (getParsedValueOrDie parse element name value).map some
  | none => .ok none

/-- The attribute may be missing, but not bad. -/
def readAttribute (defaultValue : α) : Except Error α :=
  match getAttribute element name with
  | some value => getParsedValueOrDie parse element name value
  | none => .ok defaultValue

end

end Stg.AbiXml
