import Mathlib.Data.List.Forall2
import TickGraph.Json.Reader

namespace TickGraph.Json

/-- A word that is read as this scalar, wherever a sign or a blank follows. -/
structure WordOf (word : List Char) (value : Json) : Prop where
  nonempty : word ≠ []
  letters : ∀ c ∈ word, isWordChar c = true
  read : ofWord word = some value

/-- Characters that lead from one progress to another, at whatever position they start. -/
def Reads (chars : List Char) (progress next : Progress) : Prop :=
  ∀ start, ∃ stop,
    chars.foldlM State.step ⟨start, progress, .between⟩ = .ok ⟨stop, next, .between⟩

/-- The next item of a list may stand here, behind those that were read. -/
inductive Progress.AtItem : Progress → List Json → List Frame → Prop
  | first (outer : List Frame) : AtItem (.atFirstItem outer) [] outer
  | behind (items : List Json) (outer : List Frame) :
      AtItem (.atValue (.list items :: outer)) items outer

theorem readWord_of_ofWord {word : List Char} {value : Json} (read : ofWord word = some value) :
    readWord word = .scalar value [] := by
  unfold ofWord at read
  split at read
  · rename_i found
    cases read
    exact found
  · cases read

theorem isBlank_of_isWordChar {c : Char} (letter : isWordChar c = true) : isBlank c = false := by
  rw [Bool.eq_false_iff]
  intro blank
  simp only [isBlank, Bool.or_eq_true, beq_iff_eq] at blank
  rcases blank with ((rfl | rfl) | rfl) | rfl <;> cases letter

theorem Progress.AtItem.take {progress : Progress} {items : List Json} {outer : List Frame}
    (here : progress.AtItem items outer) (value : Json) :
    progress.take (.scalar value) = some (.complete value (.list items :: outer)) := by
  cases here <;> rfl

namespace State

variable {progress next : Progress} {word letters : List Char} {value : Json} {c : Char}
  {start position : Nat}

/-- No letter of a word has a meaning of its own. -/
theorem step_first (scalar : progress.take (.scalar .null) = some next)
    (letter : isWordChar c = true) :
    step ⟨position, progress, .between⟩ c = .ok ⟨position + 1, progress, .word position [c]⟩ := by
  have unsigned : Token.ofSign? c = none := by
    unfold Token.ofSign?
    split
    all_goals first | rfl | cases letter
  have unquoted : c ≠ '"' := by
    rintro rfl
    cases letter
  have begun : progress.between position c = .ok (progress, .word position [c]) := by
    simp [Progress.between, Progress.begin, unsigned, isBlank_of_isWordChar letter, unquoted, letter,
      scalar]
  rw [step, Progress.next, begun]
  rfl

theorem step_letter (letter : isWordChar c = true) :
    step ⟨position, progress, .word start letters⟩ c =
      .ok ⟨position + 1, progress, .word start (c :: letters)⟩ := by
  rw [step, Progress.next, if_pos letter]
  rfl

/-- A word is collected letter by letter. -/
theorem foldlM_letters (all : ∀ c ∈ word, isWordChar c = true) :
    word.foldlM step ⟨position, progress, .word start letters⟩ =
      .ok ⟨position + word.length, progress, .word start (word.reverse ++ letters)⟩ := by
  induction word generalizing position letters with
  | nil => rfl
  | cons c rest ih =>
    obtain ⟨letter, others⟩ := List.forall_mem_cons.mp all
    rw [List.foldlM_cons, step_letter letter]
    refine (ih others).trans ?_
    rw [List.length_cons, List.reverse_cons, List.append_assoc, Nat.add_assoc, Nat.add_comm 1]
    rfl

theorem foldlM_word (spelled : WordOf word value)
    (scalar : progress.take (.scalar .null) = some next) :
    word.foldlM step ⟨position, progress, .between⟩ =
      .ok ⟨position + word.length, progress, .word position word.reverse⟩ := by
  obtain ⟨c, rest, rfl⟩ := List.exists_cons_of_ne_nil spelled.nonempty
  obtain ⟨letter, others⟩ := List.forall_mem_cons.mp spelled.letters
  rw [List.foldlM_cons, step_first scalar letter]
  refine (foldlM_letters others).trans ?_
  rw [List.length_cons, List.reverse_cons, Nat.add_assoc, Nat.add_comm 1]

/-- A sign behind a word ends it, and is read as if nothing stood in front of it. -/
theorem step_behind (spelled : WordOf word value)
    (taken : progress.take (.scalar value) = some next) (sign : isWordChar c = false) :
    step ⟨position, progress, .word start word.reverse⟩ c =
      step ⟨position, next, .between⟩ c := by
  have ended : progress.word start word = .ok next := by
    rw [Progress.word, readWord_of_ofWord spelled.read]
    simp only [Progress.step, taken]
    rfl
  rw [step, Progress.next, if_neg (Bool.eq_false_iff.mp sign), List.reverse_reverse, ended]
  rfl

end State

namespace Reads

variable {progress next last : Progress} {chars rest blanks : List Char} {c : Char}

theorem nil (progress : Progress) : Reads [] progress progress :=
  fun start => ⟨start, rfl⟩

theorem append (front : Reads chars progress next) (back : Reads rest next last) :
    Reads (chars ++ rest) progress last := by
  intro start
  obtain ⟨middle, first⟩ := front start
  obtain ⟨stop, second⟩ := back middle
  refine ⟨stop, ?_⟩
  rw [List.foldlM_append, first]
  exact second

/-- A sign is taken wherever it stands. -/
theorem sign {token : Token} (known : Token.ofSign? c = some token)
    (taken : progress.take token = some next) : Reads [c] progress next := by
  intro start
  have step : State.step ⟨start, progress, .between⟩ c = .ok ⟨start + 1, next, .between⟩ := by
    simp only [State.step, Progress.next, Progress.between, known, Progress.step, taken]
    rfl
  exact ⟨start + 1, by rw [List.foldlM_cons, step]; rfl⟩

/-- Blanks between the tokens are passed over. -/
theorem blank (all : ∀ c ∈ blanks, isBlank c = true) (progress : Progress) :
    Reads blanks progress progress := by
  induction blanks with
  | nil => exact .nil progress
  | cons c rest ih =>
    obtain ⟨first, others⟩ := List.forall_mem_cons.mp all
    have passed (start : Nat) : State.step ⟨start, progress, .between⟩ c =
        .ok ⟨start + 1, progress, .between⟩ := by
      simp only [isBlank, Bool.or_eq_true, beq_iff_eq] at first
      rcases first with ((rfl | rfl) | rfl) | rfl <;> rfl
    have one : Reads [c] progress progress :=
      fun start => ⟨start + 1, by rw [List.foldlM_cons, passed]; rfl⟩
    exact one.append (ih others)

variable {letters : List Char} {value : Json} {items : List Json} {outer : List Frame}

/-- A word in a list is an item, if a sign or a blank follows. -/
theorem item (spelled : WordOf letters value) (here : progress.AtItem items outer)
    (sign : isWordChar c = false)
    (behind : Reads (c :: rest) (.complete value (.list items :: outer)) next) :
    Reads (letters ++ c :: rest) progress next := by
  intro start
  obtain ⟨stop, result⟩ := behind (start + letters.length)
  refine ⟨stop, ?_⟩
  rw [List.foldlM_append, State.foldlM_word spelled (here.take .null)]
  rw [List.foldlM_cons] at result
  change List.foldlM State.step _ (c :: rest) = _
  rw [List.foldlM_cons, State.step_behind spelled (here.take value) sign]
  exact result

/-- The bracket at the end of a list, behind its last item. -/
theorem close (blank : ∀ c ∈ blanks, isBlank c = true) (spelled : WordOf letters value)
    (here : progress.AtItem items outer) :
    Reads (letters ++ (blanks ++ [']'])) progress
      (.complete (.arr (items.reverse ++ [value])) outer) := by
  have bracket : Reads [']'] (.complete value (.list items :: outer))
      (.complete (.arr (items.reverse ++ [value])) outer) := by
    rw [← List.reverse_cons]
    exact .sign rfl rfl
  have behind := (Reads.blank blank _).append bracket
  cases blanks with
  | nil => exact .item spelled here rfl bracket
  | cons c rest =>
    have sign : isWordChar c = false := by
      rw [Bool.eq_false_iff]
      intro letter
      have first := blank c (List.mem_cons_self ..)
      rw [isBlank_of_isWordChar letter] at first
      cases first
    exact .item spelled here sign behind

/-- The words of a list, with a comma and blanks between any two of them, give its items. -/
theorem list {last : List Char} {words : List (List Char)} {values : List Json}
    (blank : ∀ c ∈ blanks, isBlank c = true) (last_blank : ∀ c ∈ last, isBlank c = true)
    (spelled : WordOf letters value) (others : List.Forall₂ WordOf words values)
    (here : progress.AtItem items outer) :
    Reads (letters ++ ((words.flatMap fun next => ',' :: blanks ++ next) ++ (last ++ [']'])))
      progress (.complete (.arr (items.reverse ++ value :: values)) outer) := by
  induction others generalizing letters value items progress with
  | nil => exact .close last_blank spelled here
  | @cons word further words values first _ ih =>
    have comma : Reads [','] (.complete value (.list items :: outer))
        (.atValue (.list (value :: items) :: outer)) := .sign rfl rfl
    have rest := ih first (.behind (value :: items) outer)
    rw [List.reverse_cons, List.append_assoc] at rest
    rw [List.flatMap_cons, List.append_assoc, List.append_assoc, List.cons_append]
    exact .item spelled here rfl (comma.append ((Reads.blank blank _).append rest))

end Reads

/-- A text that was read to its end. -/
theorem read?_of_reads {text : String} {value : Json}
    (plain : text.toList.head? ≠ some (Char.ofNat 0xFEFF))
    (reads : Reads text.toList (.atValue []) (.complete value [])) : read? text = some value := by
  obtain ⟨stop, result⟩ := reads 0
  rw [read?, read, if_neg plain]
  change (text.toList.foldlM State.step State.start >>= State.finish).toOption = _
  rw [State.start, result]
  rfl

end TickGraph.Json
