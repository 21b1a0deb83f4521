import TickGraph.Proofs.FormulaText

namespace TickGraph.Double

/-- The texts of the doubles that are not finite. -/
def specialWords : List String :=
  ["nan", "inf", "-inf"]

theorem point_mem_pointed (digits : List Char) (point : Int) : '.' ∈ pointed digits point := by
  unfold pointed
  split
  · simp
  · split <;> simp

theorem exponent_mem_withExponent (digits : List Char) (exponent : Int) (width : Nat) :
    'e' ∈ withExponent digits exponent width := by
  simp [withExponent]

theorem mark_mem_write (layout : Layout) (number : Decimal) :
    '.' ∈ layout.write number ∨ 'e' ∈ layout.write number := by
  unfold Layout.write
  dsimp only
  split
  · exact Or.inl (point_mem_pointed _ _)
  · exact Or.inr (exponent_mem_withExponent _ _ _)

/-- A finite double is not written with digits alone. -/
theorem mark_mem_text {x : Float} (finite : x.isFinite = true) :
    '.' ∈ (text x).toList ∨ 'e' ∈ (text x).toList := by
  change x.toModel.unpack.isFinite = true at finite
  unfold text
  split
  · rename_i unpacked
    rw [unpacked] at finite
    cases finite
  · rename_i unpacked
    rw [unpacked] at finite
    cases finite
  · simp
  · rw [String.toList_append, String.toList_ofList, List.mem_append, List.mem_append]
    exact (mark_mem_write _ _).imp Or.inr Or.inr

/-- The three words are the texts of the doubles that are not finite, and of no others. -/
theorem text_mem_specialWords_iff {x : Float} : text x ∈ specialWords ↔ x.isFinite = false := by
  constructor
  · intro special
    have plain : ∀ word ∈ specialWords, '.' ∉ word.toList ∧ 'e' ∉ word.toList := by decide
    obtain ⟨point, exponent⟩ := plain _ special
    rw [Bool.eq_false_iff]
    exact fun finite => (mark_mem_text finite).elim point exponent
  · intro infinite
    change x.toModel.unpack.isFinite = false at infinite
    unfold text
    cases unpacked : x.toModel.unpack with
    | notANumber => simp [specialWords]
    | infinity sign => cases sign <;> simp [specialWords, minus]
    | zero sign => rw [unpacked] at infinite; cases infinite
    | finite sign m e positive => rw [unpacked] at infinite; cases infinite

theorem text_ne_empty (x : Float) : (text x).toList ≠ [] := by
  cases finite : x.isFinite with
  | true => exact (mark_mem_text finite).elim List.ne_nil_of_mem List.ne_nil_of_mem
  | false =>
    have nonempty : ∀ word ∈ specialWords, word.toList ≠ [] := by decide
    exact nonempty _ (text_mem_specialWords_iff.mpr finite)

end TickGraph.Double
