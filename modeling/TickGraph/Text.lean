namespace TickGraph

/-- The code points U+D800 to U+DFFF, counted from the first: each is half of a character. -/
abbrev Half : Type := Fin 0x800

inductive Letter where
  | char (c : Char)
  | half (h : Half)
deriving DecidableEq, Inhabited, Repr

/-- A text in which halves of characters may stand alone: the characters in front of the first half,
and each half with the characters behind it. -/
structure Text where
  start : String
  torn : List (Half × String)
deriving DecidableEq, Inhabited, Repr

def Half.number (h : Half) : Nat :=
  0xD800 + h.val

instance : Coe String Text := ⟨fun s => ⟨s, []⟩⟩

namespace Text

def behind (start : String) : List (Half × String) → Text → Text
  | [], text => ⟨start ++ text.start, text.torn⟩
  | (h, chars) :: rest, text =>
    let later := behind chars rest text
    ⟨start, (h, later.start) :: later.torn⟩

instance : Append Text := ⟨fun text other => behind text.start text.torn other⟩

/-- The texts one behind the other, with a separator between any two of them. -/
def intercalate (separator : Text) : List Text → Text
  | [] => ""
  | [text] => text
  | text :: next :: rest => text ++ (separator ++ intercalate separator (next :: rest))

def letters (text : Text) : List Letter :=
  text.start.toList.map .char ++
    text.torn.flatMap fun piece => .half piece.1 :: piece.2.toList.map .char

/-- The characters, with one that stands for no letter in place of each half. -/
def chars (text : Text) : List Char :=
  text.letters.map fun letter =>
    match letter with
    | .char c => c
    | .half _ => Char.ofNat 0xFFFD

def ofLetters : List Letter → Text
  | [] => ""
  | .char c :: rest => ⟨String.singleton c ++ (ofLetters rest).start, (ofLetters rest).torn⟩
  | .half h :: rest => ⟨"", (h, (ofLetters rest).start) :: (ofLetters rest).torn⟩

/-- The text as it can be encoded. A half that stands alone has no encoding. -/
def string? (text : Text) : Option String :=
  if text.torn = [] then some text.start else none

/-- The text with the number of each half, behind a backslash, in place of the half. -/
def escaped (text : Text) : String :=
  text.start ++ String.join (text.torn.map fun piece =>
    "\\u" ++ String.ofList (Nat.toDigits 16 piece.1.number) ++ piece.2)

end Text

end TickGraph
