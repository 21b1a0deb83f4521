namespace TickGraph.Digits

/-- The digits `0` to `9` alone. -/
def isDigit (c : Char) : Bool :=
  '0' ≤ c && c ≤ '9'

def value (c : Char) : Nat :=
  c.toNat - '0'.toNat

/-- The number that a run of digits writes in base ten; the empty run writes zero. -/
def toNat (digits : List Char) : Nat :=
  digits.foldl (fun total c => 10 * total + value c) 0

/-- A sign in front, and what follows it. -/
def splitSign : List Char → Bool × List Char
  | '-' :: rest => (true, rest)
  | '+' :: rest => (false, rest)
  | rest => (false, rest)

def signed (negative : Bool) (n : Nat) : Int :=
  if negative then -(n : Int) else n

/-- The most digits that an integer may have. Zeros in front count, and a sign does not. -/
def maxIntegerDigits : Nat :=
  4300

/-- The integer that a run of digits and a sign write, unless the run is too long. -/
def integer? (negative : Bool) (digits : List Char) : Option Int :=
  if digits.length ≤ maxIntegerDigits then some (signed negative (toNat digits)) else none

/-- Reads `e` or `E`, an optional sign and at least one digit. A text that starts otherwise has
exponent zero and is left as it is; an `e` without digits is refused. -/
def exponent : List Char → Option (Int × List Char)
  | c :: rest =>
    if c = 'e' ∨ c = 'E' then
      let (negative, unsigned) := splitSign rest
      let digits := unsigned.takeWhile isDigit
      if digits.isEmpty then none
      else some (signed negative (toNat digits), unsigned.dropWhile isDigit)
    else some (0, c :: rest)
  | [] => some (0, [])

end TickGraph.Digits
