import Mathlib.Data.List.TakeWhile
import TickGraph.Binding
import TickGraph.Proofs.WrittenTree

namespace TickGraph

theorem comma_notMem_of_mem_pieces {text piece : List Char}
    (member : piece ∈ (pieces text).1 :: (pieces text).2) : ',' ∉ piece := by
  induction text generalizing piece with
  | nil =>
    rw [List.mem_singleton.mp member]
    exact List.not_mem_nil
  | cons c rest ih =>
    unfold pieces at member
    by_cases comma : c = ','
    · simp only [comma, if_true] at member
      rcases List.mem_cons.mp member with same | later
      · rw [same]
        exact List.not_mem_nil
      · exact ih later
    · simp only [comma, if_false] at member
      rcases List.mem_cons.mp member with same | later
      · rw [same, List.mem_cons, not_or]
        exact ⟨fun equal => comma equal.symm, ih (List.mem_cons_self ..)⟩
      · exact ih (List.mem_cons_of_mem _ later)

/-- A text without commas is one piece. -/
theorem pieces_of_notMem {text : List Char} (plain : ',' ∉ text) : pieces text = (text, []) := by
  induction text with
  | nil => rfl
  | cons c rest ih =>
    rw [List.mem_cons, not_or] at plain
    have other : c ≠ ',' := Ne.symm plain.1
    simp only [pieces, ih plain.2, other, if_false]

theorem Option.mapM_eq_some_iff {α β : Type} {f : α → Option β} {xs : List α} {ys : List β} :
    xs.mapM f = some ys ↔ xs.map f = ys.map some := by
  induction xs generalizing ys with
  | nil => cases ys <;> simp
  | cons x rest ih =>
    simp only [List.mapM_cons, Option.bind_eq_bind, Option.pure_def, Option.bind_eq_some_iff, ih]
    cases ys <;> simp

theorem exists_of_mem_mapM {α β : Type} {f : α → Option β} {xs : List α} {ys : List β} {y : β}
    (mapped : xs.mapM f = some ys) (member : y ∈ ys) : ∃ x ∈ xs, f x = some y := by
  rw [← List.mem_map, Option.mapM_eq_some_iff.mp mapped]
  exact List.mem_map_of_mem member

namespace Binding

variable {text : String} {binding : Binding}

theorem split_at_equals {name values : List Char} (first : '=' ∉ name) :
    (name ++ '=' :: values).takeWhile (· ≠ '=') = name ∧
      (name ++ '=' :: values).dropWhile (· ≠ '=') = '=' :: values := by
  induction name with
  | nil => exact ⟨rfl, rfl⟩
  | cons c rest ih =>
    rw [List.mem_cons, not_or] at first
    have other : c ≠ '=' := fun same => first.1 same.symm
    obtain ⟨front, back⟩ := ih first.2
    constructor
    · rw [List.cons_append, List.takeWhile_cons_of_pos (by simpa using other), front]
    · rw [List.cons_append, List.dropWhile_cons_of_pos (by simpa using other), back]

/-- Behind the first equality sign stands at least one number. -/
theorem read?_of_split {name rest : List Char} {c : Char} (first : '=' ∉ name)
    (split : text.toList = name ++ '=' :: c :: rest) :
    Binding.read? text = some binding ↔ Numeral.int? name = some binding.tag ∧
      ((pieces (c :: rest)).1 :: (pieces (c :: rest)).2).mapM Numeral.double? =
        some binding.values := by
  obtain ⟨front, back⟩ := @split_at_equals name (c :: rest) first
  obtain ⟨tag, head, later⟩ := binding
  unfold read?
  simp only [split, front, back, List.mapM_cons, Option.bind_eq_bind, Option.bind_eq_some_iff,
    Option.pure_def, values]
  constructor
  · rintro ⟨read, integer, x, double, xs, doubles, same⟩
    cases same
    exact ⟨integer, head, double, later, doubles, rfl⟩
  · rintro ⟨integer, x, double, xs, doubles, same⟩
    cases same
    exact ⟨tag, integer, head, double, later, doubles, rfl⟩

/-- A text is a binding if there is a tag before its first equality sign and something behind it that
is a number between any two commas. -/
theorem read?_eq_some_iff :
    Binding.read? text = some binding ↔ ∃ name values : List Char, '=' ∉ name ∧
      text.toList = name ++ '=' :: values ∧ values ≠ [] ∧
      Numeral.int? name = some binding.tag ∧
      ((pieces values).1 :: (pieces values).2).mapM Numeral.double? = some binding.values := by
  constructor
  · intro read
    have whole := @List.takeWhile_append_dropWhile Char (· ≠ '=') text.toList
    have first : '=' ∉ text.toList.takeWhile (· ≠ '=') := fun member => by
      simpa using List.mem_takeWhile_imp member
    have shape : ∃ c rest, text.toList.dropWhile (· ≠ '=') = '=' :: c :: rest := by
      unfold read? at read
      dsimp only at read
      split at read
      · rename_i c rest behind
        exact ⟨c, rest, behind⟩
      · cases read
    obtain ⟨c, rest, behind⟩ := shape
    rw [behind] at whole
    obtain ⟨tag, numbers⟩ := (read?_of_split first whole.symm).mp read
    exact ⟨_, c :: rest, first, whole.symm, List.cons_ne_nil _ _, tag, numbers⟩
  · rintro ⟨name, values, first, split, nonempty, tag, numbers⟩
    obtain ⟨c, rest, same⟩ := List.exists_cons_of_ne_nil nonempty
    subst same
    exact (read?_of_split first split).mpr ⟨tag, numbers⟩

theorem read_eq_ok_iff : Binding.read text = .ok binding ↔ Binding.read? text = some binding := by
  unfold Binding.read
  cases Binding.read? text <;> simp

/-- Each value of a binding can stand alone in a binding of the same tag. -/
theorem exists_single (read : Binding.read text = .ok binding) {x : Float}
    (member : x ∈ binding.values) : ∃ single, Binding.read single = .ok ⟨binding.tag, x, []⟩ := by
  obtain ⟨name, values, first, _, _, tag, numbers⟩ :=
    read?_eq_some_iff.mp (read_eq_ok_iff.mp read)
  obtain ⟨piece, inside, number⟩ := exists_of_mem_mapM numbers member
  have alone := pieces_of_notMem (comma_notMem_of_mem_pieces inside)
  have nonempty : piece ≠ [] := by
    intro empty
    rw [empty] at number
    cases number
  refine ⟨String.ofList (name ++ '=' :: piece), read_eq_ok_iff.mpr (read?_eq_some_iff.mpr ?_)⟩
  refine ⟨name, piece, first, String.toList_ofList, nonempty, tag, ?_⟩
  rw [alone, List.mapM_cons, number]
  rfl

theorem valueAt_mem (binding : Binding) (k : Nat) : binding.valueAt k ∈ binding.values :=
  List.mem_of_getElem? (binding.getElem?_values k)

/-- The value of a binding in tick `k`, as a binding of its own. -/
def inTick (k : Nat) (binding : Binding) : Binding :=
  ⟨binding.tag, binding.valueAt k, []⟩

/-- For each tick there are texts that bind every tag to the one value that it has in this tick. -/
theorem exists_singles {texts : List String} {given : List Binding}
    (read : texts.mapM Binding.read = .ok given) (k : Nat) :
    ∃ singles : List String, singles.mapM Binding.read = .ok (given.map (inTick k)) := by
  induction texts generalizing given with
  | nil =>
    cases read
    exact ⟨[], rfl⟩
  | cons text rest ih =>
    rw [List.mapM_cons] at read
    obtain ⟨binding, head, read⟩ := Except.bind_eq_ok_iff.mp read
    obtain ⟨later, tail, read⟩ := Except.bind_eq_ok_iff.mp read
    cases read
    obtain ⟨single, alone⟩ := exists_single head (binding.valueAt_mem k)
    obtain ⟨singles, others⟩ := ih tail
    exact ⟨single :: singles, by rw [List.mapM_cons, alone, others]; rfl⟩

end Binding

end TickGraph
