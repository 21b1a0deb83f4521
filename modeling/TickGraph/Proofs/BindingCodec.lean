import TickGraph.Proofs.BindingText
import TickGraph.Proofs.NumberText

namespace TickGraph

/-- The pieces of a text are what the commas split it into. -/
theorem pieces_eq_splitOn (text : List Char) :
    (pieces text).1 :: (pieces text).2 = text.splitOn ',' := by
  induction text with
  | nil => exact (List.splitOn_nil ',').symm
  | cons c rest ih =>
    unfold List.splitOn at ih ⊢
    rw [List.splitOnP_cons_eq_if_modifyHead, ← ih]
    by_cases comma : c = ','
    · simp only [pieces, comma, if_true, beq_self_eq_true]
    · simp only [pieces, comma, if_false, beq_iff_eq, List.modifyHead_cons]

/-- There is one piece more than there are commas. -/
theorem length_pieces (text : List Char) :
    ((pieces text).1 :: (pieces text).2).length = text.count ',' + 1 := by
  induction text with
  | nil => rfl
  | cons c rest ih =>
    by_cases comma : c = ','
    · simp only [pieces, comma, if_true, List.length_cons, List.count_cons_self] at ih ⊢
      omega
    · simpa only [pieces, comma, if_false, List.length_cons, List.count_cons_of_ne comma] using ih

/-- There is one number more than there are commas. -/
theorem length_of_splitOn {α : Type} {f : List Char → Option α} {text : List Char} {found : List α}
    (read : (text.splitOn ',').mapM f = some found) : found.length = text.count ',' + 1 := by
  have count := congrArg List.length (Option.mapM_eq_some_iff.mp read)
  rw [← pieces_eq_splitOn, List.length_map, List.length_map, length_pieces] at count
  exact count.symm

/-- A list can be mapped if each of its items can. -/
theorem Option.exists_mapM_eq_some_iff {α β : Type} {f : α → Option β} {xs : List α} :
    (∃ ys, xs.mapM f = some ys) ↔ ∀ x ∈ xs, (f x).isSome := by
  induction xs with
  | nil => simp
  | cons x rest ih =>
    rw [List.forall_mem_cons, ← ih, Option.isSome_iff_exists]
    simp only [List.mapM_cons, Option.bind_eq_bind, Option.pure_def, Option.bind_eq_some_iff,
      Option.some.injEq]
    constructor
    · rintro ⟨_, y, first, ys, others, _⟩
      exact ⟨⟨y, first⟩, ys, others⟩
    · rintro ⟨⟨y, first⟩, ys, others⟩
      exact ⟨_, y, first, ys, others, rfl⟩

namespace Binding

/-- The tag, the equality sign, and the values with commas between them. -/
def text (binding : Binding) : String :=
  toString binding.tag ++ "=" ++ String.intercalate "," (binding.values.map Double.text)

theorem toList_text (binding : Binding) :
    binding.text.toList = (toString binding.tag).toList ++
      '=' :: List.intercalate [','] (binding.values.map fun x => (Double.text x).toList) := by
  have sign : "=".toList = ['='] := rfl
  have comma : ",".toList = [','] := rfl
  rw [text, String.toList_append, String.toList_append, String.toList_intercalate, sign, comma,
    List.map_map, List.append_assoc]
  rfl

theorem splitOn_texts (binding : Binding) :
    (List.intercalate [','] (binding.values.map fun x => (Double.text x).toList)).splitOn ',' =
      binding.values.map fun x => (Double.text x).toList := by
  refine List.splitOn_intercalate ',' ?_ (by simp [values])
  intro piece member
  obtain ⟨x, _, rfl⟩ := List.mem_map.mp member
  exact (Numerals.ofDouble x).notMem rfl

theorem read?_iff_splitOn {text : String} {binding : Binding} :
    Binding.read? text = some binding ↔ ∃ name values : List Char, '=' ∉ name ∧
      text.toList = name ++ '=' :: values ∧ values ≠ [] ∧
      Numeral.int? name = some binding.tag ∧
      (values.splitOn ',').mapM Numeral.double? = some binding.values := by
  simp only [read?_eq_some_iff, pieces_eq_splitOn]

/-- A binding is read back from its text if the numbers in it are. -/
theorem read_text {binding : Binding}
    (tag : Numeral.int? (toString binding.tag).toList = some binding.tag)
    (numbers : ∀ x ∈ binding.values, Numeral.double? (Double.text x).toList = some x) :
    Binding.read binding.text = .ok binding := by
  rw [read_eq_ok_iff, read?_iff_splitOn]
  refine ⟨_, _, (Numerals.ofInt binding.tag).notMem rfl, binding.toList_text, ?_, tag, ?_⟩
  · intro empty
    have pieces := binding.splitOn_texts
    rw [empty, List.splitOn_nil] at pieces
    have first := List.cons.inj pieces |>.1
    exact Double.text_ne_empty _ first.symm
  · rw [splitOn_texts, Option.mapM_eq_some_iff, List.map_map]
    exact List.map_congr_left numbers

theorem exists_read_iff {text : String} :
    (∃ binding, Binding.read text = .ok binding) ↔ ∃ name values : List Char, '=' ∉ name ∧
      text.toList = name ++ '=' :: values ∧ values ≠ [] ∧ (Numeral.int? name).isSome ∧
      ∀ piece ∈ values.splitOn ',', (Numeral.double? piece).isSome := by
  simp only [read_eq_ok_iff, read?_iff_splitOn, ← Option.exists_mapM_eq_some_iff]
  constructor
  · rintro ⟨binding, name, values, first, split, nonempty, tag, numbers⟩
    exact ⟨name, values, first, split, nonempty, Option.isSome_of_eq_some tag, _, numbers⟩
  · rintro ⟨name, values, first, split, nonempty, tag, numbers, read⟩
    obtain ⟨n, tag⟩ := Option.isSome_iff_exists.mp tag
    have count := length_of_splitOn read
    obtain ⟨x, later, rfl⟩ := List.exists_cons_of_length_pos (by omega : 0 < numbers.length)
    exact ⟨⟨n, x, later⟩, name, values, first, split, nonempty, tag, read⟩

/-- A binding is read back from its text, whatever its values are, as long as the numbers in it are
read back from theirs. Of all texts those are read that have a tag before their first equality sign and
something behind it that is a number between any two commas; there is one value more than there are
commas then. Every other text is reported as no binding. -/
theorem codec :
    (∀ binding : Binding, Numeral.int? (toString binding.tag).toList = some binding.tag →
      (∀ x ∈ binding.values, Numeral.double? (Double.text x).toList = some x) →
        Binding.read binding.text = .ok binding) ∧
    ∀ text : String,
      ((∃ binding, Binding.read text = .ok binding) ↔ ∃ name values : List Char, '=' ∉ name ∧
        text.toList = name ++ '=' :: values ∧ values ≠ [] ∧ (Numeral.int? name).isSome ∧
        ∀ piece ∈ values.splitOn ',', (Numeral.double? piece).isSome) ∧
      (∀ binding name values, Binding.read text = .ok binding → '=' ∉ name →
        text.toList = name ++ '=' :: values → Numeral.int? name = some binding.tag ∧
          (values.splitOn ',').map Numeral.double? = binding.values.map some ∧
          binding.values.length = values.count ',' + 1 ∧ binding.values ≠ []) ∧
      ((∀ binding, Binding.read text ≠ .ok binding) → Binding.read text = .error ⟨text⟩) := by
  refine ⟨fun binding => read_text, fun text => ⟨exists_read_iff, ?_, ?_⟩⟩
  · intro binding name values read first split
    obtain ⟨other, others, clean, again, nonempty, tag, numbers⟩ :=
      read?_iff_splitOn.mp (read_eq_ok_iff.mp read)
    -- a text has one first equality sign
    rw [split] at again
    have front := (@split_at_equals name values first).1
    rw [again, (@split_at_equals other others clean).1] at front
    subst front
    obtain rfl := (List.cons.inj (List.append_cancel_left again)).2
    exact ⟨tag, Option.mapM_eq_some_iff.mp numbers, length_of_splitOn numbers, List.cons_ne_nil _ _⟩
  · intro refused
    unfold Binding.read at refused ⊢
    cases read : Binding.read? text with
    | none => rfl
    | some binding => exact absurd (by rw [read]) (refused binding)

/-- NaN, an infinity and a negative zero among the values of a negative tag. -/
theorem codec_signs :
    let negativeZero : Float := -0.0
    let binding : Binding := ⟨-3, Double.notANumber, [-Double.positiveInfinity, negativeZero, 2.5]⟩
    binding.text = "-3=nan,-inf,-0.0,2.5" ∧ Binding.read "-3=nan,-inf,-0.0,2.5" = .ok binding ∧
      binding.values.length = 4 ∧ Binding.read "1=2=3" = .error ⟨"1=2=3"⟩ := by
  intro negativeZero binding
  have text : binding.text = "-3=nan,-inf,-0.0,2.5" := by decide +kernel
  have read : Binding.read binding.text = .ok binding :=
    codec.1 binding (by decide +kernel) (by decide +kernel)
  rw [text] at read
  refine ⟨text, read, ?_, ?_⟩
  · exact ((codec.2 _).2.1 binding "-3".toList "nan,-inf,-0.0,2.5".toList read (by decide) rfl).2.2.1
  · exact (codec.2 _).2.2 (by intro binding impossible; cases impossible)

end Binding

end TickGraph
