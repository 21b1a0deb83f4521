import TickGraph.Text

namespace TickGraph.Text

theorem coe_inj {s t : String} : (s : Text) = t ↔ s = t := by
  simp

theorem coe_append (s t : String) : ((s ++ t : String) : Text) = s ++ t :=
  rfl

theorem letters_coe (s : String) : (s : Text).letters = s.toList.map .char := by
  simp [letters]

theorem letters_append (text other : Text) :
    (text ++ other).letters = text.letters ++ other.letters := by
  obtain ⟨start, torn⟩ := text
  change (behind start torn other).letters = _
  induction torn generalizing start with
  | nil => simp [behind, letters]
  | cons piece rest ih =>
    obtain ⟨h, chars⟩ := piece
    have later := ih chars
    simp only [letters] at later ⊢
    simp [behind, later]

theorem ofLetters_chars (chars : List Char) (rest : List Letter) :
    ofLetters (chars.map .char ++ rest) =
      ⟨String.ofList chars ++ (ofLetters rest).start, (ofLetters rest).torn⟩ := by
  induction chars with
  | nil => simp
  | cons c chars ih =>
    have spelled : String.singleton c ++ String.ofList chars = String.ofList (c :: chars) := by
      rw [← String.toList_inj]
      simp
    simp only [List.map_cons, List.cons_append, ofLetters, ih, ← String.append_assoc, spelled]

theorem ofLetters_letters (text : Text) : ofLetters text.letters = text := by
  obtain ⟨start, torn⟩ := text
  have pieces : ofLetters (torn.flatMap fun piece => .half piece.1 :: piece.2.toList.map .char) =
      ⟨"", torn⟩ := by
    induction torn with
    | nil => rfl
    | cons piece rest ih => simp [ofLetters, ofLetters_chars, ih]
  rw [letters, ofLetters_chars, pieces]
  simp

theorem letters_inj {text other : Text} : text.letters = other.letters ↔ text = other := by
  constructor
  · intro same
    rw [← ofLetters_letters text, same, ofLetters_letters]
  · exact congrArg letters

theorem append_right_inj (front : Text) {text other : Text} :
    front ++ text = front ++ other ↔ text = other := by
  rw [← letters_inj, letters_append, letters_append, List.append_right_inj, letters_inj]

theorem append_left_inj (back : Text) {text other : Text} :
    text ++ back = other ++ back ↔ text = other := by
  rw [← letters_inj, letters_append, letters_append, List.append_left_inj, letters_inj]

theorem append_assoc (text other last : Text) :
    text ++ other ++ last = text ++ (other ++ last) := by
  simp only [← letters_inj, letters_append, List.append_assoc]

theorem letters_intercalate (separator : Text) (texts : List Text) :
    (intercalate separator texts).letters = separator.letters.intercalate (texts.map letters) := by
  induction texts with
  | nil => rfl
  | cons text rest ih =>
    cases rest with
    | nil => simp [intercalate]
    | cons next rest => simp [intercalate, letters_append, ih]

end TickGraph.Text
