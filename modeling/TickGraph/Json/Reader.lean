import TickGraph.Json.Fault
import TickGraph.Json.Token

namespace TickGraph.Json

/-- A list or an object that is still open: its items so far, last first, or its fields so far and
the name whose value is being read. -/
inductive Frame where
  | list (items : List Json)
  | object (fields : Json.Fields) (name : Text)

/-- What may come next, and the open containers from the inside out. So nesting of any depth needs no
recursion. -/
inductive Progress where
  | atValue (outer : List Frame)
  | atFirstItem (outer : List Frame)
  | atFirstName (outer : List Frame)
  | atName (fields : Json.Fields) (outer : List Frame)
  | atColon (fields : Json.Fields) (name : Text) (outer : List Frame)
  | complete (value : Json) (outer : List Frame)

def Progress.enter (outer : List Frame) : Token → Option Progress
  | .scalar value => some (.complete value outer)
  | .openList => some (.atFirstItem outer)
  | .openObject => some (.atFirstName outer)
  | _ => none

/-- A comma has to be followed by another item or name, so a list or an object never ends in one. -/
def Progress.take : Progress → Token → Option Progress
  | .atValue outer, token => Progress.enter outer token
  | .atFirstItem outer, .closeList => some (.complete (.arr []) outer)
  | .atFirstItem outer, token => Progress.enter (.list [] :: outer) token
  | .atFirstName outer, .closeObject => some (.complete (.obj []) outer)
  | .atFirstName outer, .scalar (.str name) => some (.atColon [] name outer)
  | .atName fields outer, .scalar (.str name) => some (.atColon fields name outer)
  | .atColon fields name outer, .colon => some (.atValue (.object fields name :: outer))
  | .complete value (.list items :: outer), .comma =>
    some (.atValue (.list (value :: items) :: outer))
  | .complete value (.list items :: outer), .closeList =>
    some (.complete (.arr (value :: items).reverse) outer)
  | .complete value (.object fields name :: outer), .comma =>
    some (.atName (Json.Fields.put name value fields) outer)
  | .complete value (.object fields name :: outer), .closeObject =>
    some (.complete (.obj (Json.Fields.put name value fields)) outer)
  | _, _ => none

/-- What is missing where something else stands. -/
def Progress.wanted : Progress → Reason
  | .atValue _ => .value
  | .atFirstItem _ => .value
  | .atFirstName _ => .name
  | .atName _ _ => .name
  | .atColon _ _ _ => .colon
  | .complete _ [] => .nothing
  | .complete _ (_ :: _) => .comma

def Progress.step (progress : Progress) (position : Nat) (token : Token) :
    Except ReadFault Progress :=
  match progress.take token with
  | some next => .ok next
  | none => .error (.malformed progress.wanted position)

/-- What is being read: nothing, a word, or a text between quotation marks, each with the position
where it starts. What was collected of it is held last first. Behind an escape with four digits, and
in it, the position of its letter is known. -/
inductive Mode where
  | between
  | word (start : Nat) (letters : List Char)
  | text (start : Nat) (units : List Nat) (escaped : Option Nat)
  | escape (start : Nat) (units : List Nat)
  | hex (start : Nat) (units : List Nat) (letter missing code : Nat)

structure State where
  position : Nat
  progress : Progress
  mode : Mode

def State.start : State :=
  ⟨0, .atValue [], .between⟩

def Token.ofSign? (c : Char) : Option Token :=
  match c with
  | '[' => some .openList
  | ']' => some .closeList
  | '\x7b' => some .openObject
  | '\x7d' => some .closeObject
  | ',' => some .comma
  | ':' => some .colon
  | _ => none

/-- A word or a text begins only where a scalar like the sample may stand. -/
def Progress.begin (progress : Progress) (position : Nat) (sample : Json) (mode : Mode) :
    Except ReadFault (Progress × Mode) :=
  match progress.take (.scalar sample) with
  | some _ => .ok (progress, mode)
  | none => .error (.malformed progress.wanted position)

/-- Reads a character that stands in no word and in no text. -/
def Progress.between (progress : Progress) (position : Nat) (c : Char) :
    Except ReadFault (Progress × Mode) :=
  match Token.ofSign? c with
  | some token => (progress.step position token).map fun next => (next, .between)
  | none =>
    if isBlank c then .ok (progress, .between)
    else if c = '"' then progress.begin position (.str "") (.text position [] none)
    else if isWordChar c then progress.begin position .null (.word position [c])
    else .error (.malformed progress.wanted position)

/-- Reads a word as far as it is one. What is left of it stands where something else has to. -/
def Progress.word (progress : Progress) (start : Nat) (letters : List Char) :
    Except ReadFault Progress :=
  match readWord letters with
  | .scalar value rest => do
    let next ← progress.step start (.scalar value)
    if rest.isEmpty then .ok next
    else .error (.malformed next.wanted (start + (letters.length - rest.length)))
  | .integerTooLong digits => .error (.integerTooLong digits)
  | .nothing => .error (.malformed .value start)

/-- Reads a character. Control characters stand in a text only as escapes. -/
def Progress.next (progress : Progress) (position : Nat) (c : Char) :
    Mode → Except ReadFault (Progress × Mode)
  | .between => progress.between position c
  | .word start letters =>
    if isWordChar c then .ok (progress, .word start (c :: letters))
    else do
      let next ← progress.word start letters.reverse
      next.between position c
  | .text start units _ =>
    if c = '"' then
      (progress.step start (.scalar (.str (Text.ofLetters (lettersOfUnits units.reverse))))).map
        fun next => (next, .between)
    else if c = '\\' then .ok (progress, .escape start units)
    else if c.toNat < 0x20 then .error (.malformed .controlCharacter position)
    else .ok (progress, .text start (c.toNat :: units) none)
  | .escape start units =>
    if c = 'u' then .ok (progress, .hex start units position 4 0)
    else
      match escaped c with
      | some plain => .ok (progress, .text start (plain.toNat :: units) none)
      | none => .error (.malformed .escape (position - 1))
  | .hex start units letter missing code =>
    match hexDigit c with
    | some digit =>
      let code := 16 * code + digit
      if missing ≤ 1 then .ok (progress, .text start (code :: units) (some letter))
      else .ok (progress, .hex start units letter (missing - 1) code)
    | none => .error (.malformed .hexEscape letter)

def State.step (state : State) (c : Char) : Except ReadFault State := do
  let (progress, mode) ← state.progress.next state.position c state.mode
  .ok ⟨state.position + 1, progress, mode⟩

def Progress.value (progress : Progress) (position : Nat) : Except ReadFault Json :=
  match progress with
  | .complete value [] => .ok value
  | _ => .error (.malformed progress.wanted position)

/-- The value, if the text may end here. A text that ends with an escape counts as ending in it. -/
def State.finish (state : State) : Except ReadFault Json :=
  match state.mode with
  | .between => state.progress.value state.position
  | .word start letters => do
    let last ← state.progress.word start letters.reverse
    last.value state.position
  | .text start _ none => .error (.malformed .unterminated start)
  | .text _ _ (some letter) => .error (.malformed .hexEscape letter)
  | .escape start _ => .error (.malformed .unterminated start)
  | .hex _ _ letter _ _ => .error (.malformed .hexEscape letter)

/-- Reads a text that holds one JSON value and blanks around it. -/
def read (text : String) : Except ReadFault Json :=
  if text.toList.head? = some (Char.ofNat 0xFEFF) then .error (.malformed .byteOrderMark 0)
  else do
    let last ← text.toList.foldlM State.step State.start
    last.finish

def read? (text : String) : Option Json :=
  (read text).toOption

end TickGraph.Json
