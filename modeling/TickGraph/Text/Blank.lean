namespace TickGraph

/-- White space beyond ASCII. -/
def isWideBlank (c : Char) : Bool :=
  [0x85, 0xA0, 0x1680, 0x2028, 0x2029, 0x202F, 0x205F, 0x3000].contains c.toNat ||
    (0x2000 ≤ c.toNat && c.toNat ≤ 0x200A)

/-- The blank, the tabulators and the line breaks of ASCII. -/
def isPlainBlank (c : Char) : Bool :=
  c.toNat == 0x20 || (0x09 ≤ c.toNat && c.toNat ≤ 0x0D)

/-- All white space, with the four separators of ASCII. -/
def isBlank (c : Char) : Bool :=
  isPlainBlank c || isWideBlank c || (0x1C ≤ c.toNat && c.toNat ≤ 0x1F)

/-- Takes characters of a kind away at both ends. -/
def trimChars (drop : Char → Bool) (text : List Char) : List Char :=
  ((text.dropWhile drop).reverse.dropWhile drop).reverse

/-- Lower case where it is an ASCII letter: of the capital letters, and of the Kelvin sign. No other
character has an ASCII letter alone as its lower case. -/
def lowerToAscii (c : Char) : Char :=
  if c.toNat = 0x212A then 'k' else c.toLower

end TickGraph
