import Mathlib
import TickGraph.Path

namespace TickGraph

/-- The text of a step behind its dot. -/
def Step.word : Step → String
  | .field f => f.name
  | .other i => "others[" ++ toString i ++ "]"

theorem Step.toList_render (step : Step) : step.render.toList = '.' :: step.word.toList := by
  cases step with
  | field f => simp [Step.render, Step.word]
  | other i => simp [Step.render, Step.word]

theorem Field.name_injective {f g : Field} (same : f.name = g.name) : f = g := by
  cases f <;> cases g <;> first | rfl | exact absurd same (by decide)

theorem Field.dot_notMem_name (f : Field) : '.' ∉ f.name.toList := by
  cases f <;> decide

theorem Field.bracket_notMem_name (f : Field) : '[' ∉ f.name.toList := by
  cases f <;> decide

theorem isDigit_of_mem_toString {n : Nat} {c : Char} (member : c ∈ (toString n).toList) :
    c.isDigit = true := by
  rw [Nat.toString_eq_repr, Nat.toList_repr] at member
  exact Nat.isDigit_of_mem_toDigits (by decide) (by decide) member

theorem Step.dot_notMem_word (step : Step) : '.' ∉ step.word.toList := by
  cases step with
  | field f => exact f.dot_notMem_name
  | other i =>
    have number : '.' ∉ (toString i).toList := fun member =>
      absurd (isDigit_of_mem_toString member) (by decide)
    simp only [Step.word, String.toList_append, List.mem_append, not_or]
    exact ⟨⟨by decide, number⟩, by decide⟩

theorem Step.word_injective {step other : Step} (same : step.word = other.word) : step = other := by
  have differ (f : Field) (i : Nat) : (Step.field f).word ≠ (Step.other i).word := by
    intro equal
    have bracket : '[' ∈ (Step.other i).word.toList := by simp [Step.word]
    rw [← equal] at bracket
    exact f.bracket_notMem_name bracket
  cases step with
  | field f =>
    cases other with
    | field g => rw [Field.name_injective same]
    | other i => exact absurd same (differ f i)
  | other i =>
    cases other with
    | field g => exact absurd same.symm (differ g i)
    | other j =>
      have number : "others[" ++ toString i = "others[" ++ toString j :=
        (String.append_left_inj "]").mp same
      rw [Nat.repr_inj.mp ((String.append_right_inj "others[").mp number)]

theorem List.intercalate_cons_eq {α : Type} (sep first : List α) (rest : List (List α)) :
    sep.intercalate (first :: rest) = first ++ rest.flatMap (sep ++ ·) := by
  induction rest generalizing first with
  | nil => simp
  | cons second rest ih => simp [ih]

/-- The steps in a text, cut at the dots. -/
theorem splitOn_steps (steps : List Step) :
    (String.join (steps.map Step.render)).toList.splitOn '.' =
      [] :: steps.map fun step => step.word.toList := by
  have text : (String.join (steps.map Step.render)).toList =
      ['.'].intercalate ([] :: steps.map fun step => step.word.toList) := by
    rw [List.intercalate_cons_eq, String.toList_join]
    simp [List.flatMap_map, Step.toList_render]
  rw [text]
  refine List.splitOn_intercalate '.' ?_ (List.cons_ne_nil _ _)
  intro word member
  rcases List.mem_cons.mp member with rfl | later
  · exact List.not_mem_nil
  · obtain ⟨step, _, rfl⟩ := List.mem_map.mp later
    exact step.dot_notMem_word

/-- No two lists of steps have the same text. -/
theorem Path.steps_of_text {steps others : List Step}
    (same : String.join (steps.map Step.render) = String.join (others.map Step.render)) :
    steps = others := by
  have words := splitOn_steps steps
  rw [same, splitOn_steps] at words
  have injective : Function.Injective fun step : Step => step.word.toList := fun _ _ equal =>
    Step.word_injective (String.toList_inj.mp equal)
  exact List.map_injective_iff.mpr injective (List.cons.inj words).2.symm

end TickGraph
