import TickGraph.Text.Digits

namespace TickGraph.Json

/-- What a text fails on that is no JSON. The first five say what had to come next. -/
inductive Reason where
  | value
  | name
  | colon
  | comma
  | nothing
  | unterminated
  | controlCharacter
  | escape
  | hexEscape
  | byteOrderMark
deriving DecidableEq, Inhabited, Repr

def Reason.text : Reason → String
  | .value => "Expecting value"
  | .name => "Expecting property name enclosed in double quotes"
  | .colon => "Expecting ':' delimiter"
  | .comma => "Expecting ',' delimiter"
  | .nothing => "Extra data"
  | .unterminated => "Unterminated string starting at"
  | .controlCharacter => "Invalid control character at"
  | .escape => "Invalid \\escape"
  | .hexEscape => "Invalid \\uXXXX escape"
  | .byteOrderMark => "Unexpected UTF-8 BOM (decode using utf-8-sig)"

/-- Why a text is not read: it is no JSON from a position on, or an integer in it has too many
digits. -/
inductive ReadFault where
  | malformed (reason : Reason) (position : Nat)
  | integerTooLong (digits : Nat)
deriving DecidableEq, Inhabited, Repr

/-- A position in a text. Lines and columns are counted from one. -/
structure Place where
  line : Nat
  column : Nat
  position : Nat
deriving DecidableEq, Inhabited, Repr

def Place.of (text : List Char) (position : Nat) : Place :=
  let front := text.take position
  ⟨front.count '\n' + 1, (front.reverse.takeWhile (· ≠ '\n')).length + 1, position⟩

def Place.text (place : Place) : String :=
  "line " ++ toString place.line ++ " column " ++ toString place.column ++ " (char " ++
    toString place.position ++ ")"

end TickGraph.Json
