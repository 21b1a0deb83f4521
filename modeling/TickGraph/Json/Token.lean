import TickGraph.Double
import TickGraph.Json
import TickGraph.Text.Digits

namespace TickGraph.Json

inductive Token where
  | openList
  | closeList
  | openObject
  | closeObject
  | comma
  | colon
  | scalar (value : Json)

/-- What a word begins with. The rest of it is not read. -/
inductive WordStart where
  | scalar (value : Json) (rest : List Char)
  | integerTooLong (digits : Nat)
  | nothing

/-- Takes the fraction off, a point with at least one digit behind it. -/
def fraction : List Char → List Char × List Char
  | '.' :: rest =>
    let digits := rest.takeWhile Digits.isDigit
    if digits.isEmpty then ([], '.' :: rest) else (digits, rest.dropWhile Digits.isDigit)
  | rest => ([], rest)

/-- The digits of an integer. A zero stands in front of other digits nowhere. -/
def wholeDigits : List Char → List Char
  | '0' :: _ => ['0']
  | word => word.takeWhile Digits.isDigit

/-- Reads an unsigned number. Without a fraction or an exponent it is an integer. -/
def unsignedNumber (negative : Bool) (word : List Char) : WordStart :=
  let whole := wholeDigits word
  let behind := word.drop whole.length
  let (decimals, rest) := fraction behind
  let (exponent, rest) := (Digits.exponent rest).getD (0, rest)
  if whole.isEmpty then .nothing
  else if rest = behind then
    match Digits.integer? negative whole with
    | some n => .scalar (.int n) rest
    | none => .integerTooLong whole.length
  else
    .scalar (.float (Double.ofDecimal negative (Digits.toNat (whole ++ decimals))
      (exponent - decimals.length))) rest

/-- The words that are no numbers. Besides those of JSON, `NaN` and the infinities are read. -/
def namedScalars : List (List Char × Json) :=
  [("true".toList, .bool true), ("false".toList, .bool false), ("null".toList, .null),
    ("NaN".toList, .float Double.notANumber), ("Infinity".toList, .float Double.positiveInfinity),
    ("-Infinity".toList, .float (-Double.positiveInfinity))]

/-- The longest scalar that a word begins with. -/
def readWord (word : List Char) : WordStart :=
  match namedScalars.find? fun entry => entry.1.isPrefixOf word with
  | some (name, value) => .scalar value (word.drop name.length)
  | none =>
    match word with
    | '-' :: rest => unsignedNumber true rest
    | _ => unsignedNumber false word

/-- The scalar that a word writes. -/
def ofWord (word : List Char) : Option Json :=
  match readWord word with
  | .scalar value [] => some value
  | _ => none

def isWordChar (c : Char) : Bool :=
  c.isAlphanum || c == '+' || c == '-' || c == '.'

def isBlank (c : Char) : Bool :=
  c == ' ' || c == '\t' || c == '\n' || c == '\r'

/-- An escaped half of a character stays one. -/
def letterOfUnit (unit : Nat) : Letter :=
  if half : 0xD800 ≤ unit ∧ unit < 0xE000 then .half ⟨unit - 0xD800, by omega⟩
  else .char (Char.ofNat unit)

/-- Puts the two halves of an escaped character above U+FFFF together. -/
def lettersOfUnits : List Nat → List Letter
  | high :: low :: rest =>
    if 0xD800 ≤ high ∧ high < 0xDC00 ∧ 0xDC00 ≤ low ∧ low < 0xE000 then
      .char (Char.ofNat (0x10000 + (high - 0xD800) * 0x400 + (low - 0xDC00))) ::
        lettersOfUnits rest
    else letterOfUnit high :: lettersOfUnits (low :: rest)
  | [unit] => [letterOfUnit unit]
  | [] => []

/-- What a letter behind a backslash stands for. -/
def escaped (c : Char) : Option Char :=
  match c with
  | '"' => some '"'
  | '\\' => some '\\'
  | '/' => some '/'
  | 'b' => some (Char.ofNat 8)
  | 'f' => some (Char.ofNat 12)
  | 'n' => some '\n'
  | 'r' => some '\r'
  | 't' => some '\t'
  | _ => none

def hexDigit (c : Char) : Option Nat :=
  if '0' ≤ c ∧ c ≤ '9' then some (c.toNat - '0'.toNat)
  else if 'a' ≤ c ∧ c ≤ 'f' then some (c.toNat - 'a'.toNat + 10)
  else if 'A' ≤ c ∧ c ≤ 'F' then some (c.toNat - 'A'.toNat + 10)
  else none

end TickGraph.Json
