import TickGraph.Text
import TickGraph.Text.Blank

namespace TickGraph

/-- The blocks of characters beyond ASCII that have no shape of their own: controls, signs that only
direct the writing, and private use. -/
def shapelessBlocks : List (Nat × Nat) :=
  [(0x7F, 0xA0), (0xAD, 0xAD), (0x600, 0x605), (0x61C, 0x61C), (0x6DD, 0x6DD), (0x70F, 0x70F),
    (0x890, 0x891), (0x8E2, 0x8E2), (0x180E, 0x180E), (0x200B, 0x200F), (0x202A, 0x202E),
    (0x2060, 0x206F), (0xE000, 0xF8FF), (0xFEFF, 0xFEFF), (0xFFF9, 0xFFFB), (0x110BD, 0x110BD),
    (0x110CD, 0x110CD), (0x13430, 0x1343F), (0x1BCA0, 0x1BCA3), (0x1D173, 0x1D17A),
    (0xE0000, 0x10FFFF)]

def isPrintable (c : Char) : Bool :=
  0x20 ≤ c.toNat && !isWideBlank c &&
    !shapelessBlocks.any fun block => block.1 ≤ c.toNat && c.toNat ≤ block.2

/-- A number in base 16, with zeros in front up to a width. -/
def hexDigits (width n : Nat) : List Char :=
  let digits := Nat.toDigits 16 n
  List.replicate (width - digits.length) '0' ++ digits

/-- A character between quotation marks, behind a backslash or as its number where it could not stand
there or could not be seen. -/
def quotedChar (mark c : Char) : List Char :=
  if c = mark ∨ c = '\\' then ['\\', c]
  else if c = '\t' then ['\\', 't']
  else if c = '\n' then ['\\', 'n']
  else if c = '\r' then ['\\', 'r']
  else if isPrintable c then [c]
  else if c.toNat < 0x100 then '\\' :: 'x' :: hexDigits 2 c.toNat
  else if c.toNat < 0x10000 then '\\' :: 'u' :: hexDigits 4 c.toNat
  else '\\' :: 'U' :: hexDigits 8 c.toNat

def Letter.quoted (mark : Char) : Letter → List Char
  | .char c => quotedChar mark c
  | .half h => '\\' :: 'u' :: hexDigits 4 h.number

/-- The mark that a text is put between: the single one, unless only that one occurs in the text. -/
def Text.mark (text : Text) : Char :=
  if text.letters.contains (.char '\'') && !text.letters.contains (.char '"') then '"' else '\''

def Text.quoted (text : Text) : String :=
  String.ofList (text.mark :: text.letters.flatMap (Letter.quoted text.mark) ++ [text.mark])

end TickGraph
