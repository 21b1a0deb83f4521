import TickGraph.Double
import TickGraph.Text.Blank
import TickGraph.Text.Digits

namespace TickGraph.Numeral

/-- The zeros of the scripts that have decimal digits. The other nine digits follow each of them. -/
def zeroDigits : List Nat :=
  [0x30, 0x660, 0x6F0, 0x7C0, 0x966, 0x9E6, 0xA66, 0xAE6, 0xB66, 0xBE6, 0xC66, 0xCE6, 0xD66, 0xDE6,
    0xE50, 0xED0, 0xF20, 0x1040, 0x1090, 0x17E0, 0x1810, 0x1946, 0x19D0, 0x1A80, 0x1A90, 0x1B50,
    0x1BB0, 0x1C40, 0x1C50, 0xA620, 0xA8D0, 0xA900, 0xA9D0, 0xA9F0, 0xAA50, 0xABF0, 0xFF10, 0x104A0,
    0x10D30, 0x11066, 0x110F0, 0x11136, 0x111D0, 0x112F0, 0x11450, 0x114D0, 0x11650, 0x116C0,
    0x11730, 0x118E0, 0x11950, 0x11C50, 0x11D50, 0x11DA0, 0x16A60, 0x16AC0, 0x16B50, 0x1D7CE,
    0x1D7D8, 0x1D7E2, 0x1D7EC, 0x1D7F6, 0x1E140, 0x1E2F0, 0x1E950, 0x1FBF0]

/-- The ASCII digit of the same value, for a decimal digit of any script. -/
def asciiDigit? (c : Char) : Option Char :=
  (zeroDigits.find? fun first => first ≤ c.toNat && c.toNat ≤ first + 9).map fun first =>
    Char.ofNat ('0'.toNat + (c.toNat - first))

/-- A character as the grammar of numbers sees it: ASCII stays, blanks and digits of other scripts
become ASCII ones, and the rest becomes a character that no number contains. -/
def toAscii (c : Char) : Char :=
  if c.toNat < 0x7F then c
  else if isWideBlank c then ' '
  else (asciiDigit? c).getD '?'

/-- Takes single underscores out. Each has to stand between two digits. -/
def joinDigits (afterDigit : Bool) : List Char → Option (List Char)
  | [] => some []
  | c :: rest =>
    if c = '_' then
      if afterDigit && (rest.head?.map Digits.isDigit).getD false then joinDigits false rest
      else none
    else (joinDigits (Digits.isDigit c) rest).map (c :: ·)

/-- The text without the blanks around it and the underscores in it. -/
def plain? (text : List Char) : Option (List Char) :=
  joinDigits false (trimChars isPlainBlank (text.map toAscii))

/-- Reads an integer. Only its digits count towards the longest length. -/
def int? (text : List Char) : Option Int := do
  let (negative, digits) := Digits.splitSign (← plain? text)
  if digits.isEmpty || !digits.all Digits.isDigit then none
  else Digits.integer? negative digits

/-- The number of digits in the integer that a text begins with, whatever stands behind it. -/
def integerDigits? (text : List Char) : Option Nat :=
  let (_, unsigned) := Digits.splitSign (trimChars isPlainBlank (text.map toAscii))
  (joinDigits false (unsigned.takeWhile fun c => Digits.isDigit c || c == '_')).map List.length

/-- Reads a decimal number without a sign: digits with a point before, among or behind them, and an
exponent. -/
def decimal? (negative : Bool) (text : List Char) : Option Float := do
  let whole := text.takeWhile Digits.isDigit
  let rest := text.dropWhile Digits.isDigit
  let (decimals, rest) :=
    match rest with
    | '.' :: behind => (behind.takeWhile Digits.isDigit, behind.dropWhile Digits.isDigit)
    | _ => ([], rest)
  let digits := whole ++ decimals
  let (exponent, rest) ← Digits.exponent rest
  if digits.isEmpty || !rest.isEmpty then none
  else some (Double.ofDecimal negative (Digits.toNat digits) (exponent - decimals.length))

/-- Reads a double. Infinity and NaN are written as words, in upper or lower case. -/
def double? (text : List Char) : Option Float := do
  let (negative, unsigned) := Digits.splitSign (← plain? text)
  let word := String.ofList (unsigned.map Char.toLower)
  if word = "inf" ∨ word = "infinity" then
    some (if negative then -Double.positiveInfinity else Double.positiveInfinity)
  else if word = "nan" then some Double.notANumber
  else decimal? negative unsigned

end TickGraph.Numeral
