import TickGraph.Proofs.FaultReport
import TickGraph.Proofs.PathText

namespace TickGraph

/-- The value one step further down. -/
def Json.step? : Json → Step → Option Json
  | .obj fields, .field f => fields.lookup f.key
  | .obj fields, .other i =>
    match fields.lookup Field.others.key with
    | some (.arr items) => items[i]?
    | _ => none
  | _, _ => none

/-- The value that some steps lead to. -/
def Json.at? : Json → List Step → Option Json
  | d, [] => some d
  | d, step :: rest => (d.step? step).bind fun child => child.at? rest

theorem Json.Operand.step? {d child : Json} {step : Step} (operand : d.Operand step child) :
    d.step? step = some child := by
  cases operand with
  | child _ _ held => exact held
  | other _ _ held item =>
    unfold Json.step?
    simp only [held]
    exact item

/-- A fault is at the end of its steps. -/
theorem Json.HasFault.place {d : Json} {fault : Fault} (faulty : d.HasFault fault) :
    ∃ place, d.at? fault.steps = some place ∧ place.Violates fault.violation := by
  induction faulty with
  | @here d violation violates => exact ⟨d, rfl, violates⟩
  | @inside d child step fault operand _ ih =>
    obtain ⟨place, found, violates⟩ := ih
    refine ⟨place, ?_, violates⟩
    change (d.step? step).bind _ = _
    rw [operand.step?]
    exact found

/-- The operands whose turn comes before a fault, at the node where it is and at the nodes above. -/
inductive Json.Precedes : Json → Fault → Json → Prop
  | here {d child : Json} {step : Step} {fault : Fault} {turn : Nat} {rest : List Nat}
      (operand : d.Operand step child) (turns : fault.turns = turn :: rest)
      (before : step.turn < turn) : Precedes d fault child
  | inside {d inner child : Json} {step : Step} {fault : Fault} (operand : d.Operand step inner)
      (precedes : Precedes inner fault child) : Precedes d (fault.below step) child

/-- A fault of an operand comes before what the operand comes before. -/
theorem Json.Precedes.earlier {d child : Json} {fault inner : Fault}
    (precedes : d.Precedes fault child) (faulty : child.HasFault inner) :
    ∃ earlier, d.HasFault earlier ∧ earlier.turns < fault.turns := by
  induction precedes with
  | @here d child step fault turn rest operand turns before =>
    refine ⟨inner.below step, .inside operand faulty, ?_⟩
    rw [turns, Fault.turns_below, List.cons_lt_cons_iff]
    exact Or.inl before
  | @inside d _ _ step fault operand _ ih =>
    obtain ⟨earlier, present, less⟩ := ih faulty
    refine ⟨earlier.below step, .inside operand present, ?_⟩
    rw [Fault.turns_below, Fault.turns_below, List.cons_lt_cons_iff]
    exact Or.inr ⟨rfl, less⟩

theorem Json.exists_read_of_precedes {d child : Json} {fault : Fault}
    (first : ∀ other, d.HasFault other → other = fault ∨ fault.turns < other.turns)
    (precedes : d.Precedes fault child) : ∃ root, ∀ path, Node.read child path = .ok root := by
  cases Node.read_reports child with
  | accepted root result clean => exact ⟨root, result⟩
  | refused inner result found _ =>
    -- A fault in the operand would come before the first one.
    obtain ⟨earlier, present, less⟩ := precedes.earlier found
    rcases first earlier present with same | later
    · rw [same] at less
      exact absurd less (List.lt_irrefl _)
    · exact absurd (List.lt_trans less later) (List.lt_irrefl _)

theorem Fault.render_under (fault : Fault) (path : Path) :
    (fault.under path).path.render =
      path.render ++ String.join (fault.steps.map Step.render) := by
  simp [Fault.under, Path.render, Text.coe_append, Text.append_assoc]

theorem Json.Kind.name_injective {kind other : Json.Kind} (same : kind.name = other.name) :
    kind = other := by
  cases kind <;> cases other <;> first | rfl | exact absurd same (by decide)

namespace Violation

/-- The words that the text of a violation begins with. -/
def opening : Violation → String
  | .notObject _ => "expected a node mapping, got "
  | .typeNotString => "missing or non-string 'type' field"
  | .missing _ => "missing required field '"
  | .othersNotList _ => "'others' must be a list, got "
  | .valueNotNumber _ => "'value' must be a number, got "
  | .valueOutOfRange _ => "'value' "
  | .tagNotInteger _ => "'tag' must be an integer, got "

theorem opening_prefix_text (violation : Violation) :
    violation.opening.toList <+: violation.text.toList := by
  unfold opening text
  cases violation with
  | typeNotString => exact List.prefix_rfl
  | missing field =>
    dsimp only
    rw [String.append_assoc, String.toList_append]
    exact List.prefix_append ..
  | valueOutOfRange n =>
    dsimp only
    rw [String.append_assoc, String.toList_append]
    exact List.prefix_append ..
  | _ =>
    dsimp only
    rw [String.toList_append]
    exact List.prefix_append ..

theorem text_ne_of_opening {violation other : Violation}
    (apart : ¬ violation.opening.toList <+: other.opening.toList ∧
      ¬ other.opening.toList <+: violation.opening.toList) : violation.text ≠ other.text := by
  intro same
  have front := violation.opening_prefix_text
  rw [same] at front
  exact (List.prefix_or_prefix_of_prefix front other.opening_prefix_text).elim apart.1 apart.2

/-- The one opening that another one begins with: the texts end differently. -/
theorem text_valueNotNumber_ne (got : Json.Kind) (n : Int) :
    (valueNotNumber got).text ≠ (valueOutOfRange n).text := by
  intro same
  have ending : " range".toList <:+ (valueOutOfRange n).text.toList := by
    have words : " range".toList <:+ " is out of float range".toList := by
      decide +kernel
    unfold text
    simp only [String.toList_append]
    exact words.trans (List.suffix_append ..)
  rw [← same] at ending
  cases got <;> exact absurd ending (by decide)

/-- The text of a violation names it completely. -/
theorem text_injective {violation other : Violation}
    (same : violation.text = other.text) : violation = other := by
  cases violation with
  | notObject got =>
    cases other with
    | notObject kind => rw [Json.Kind.name_injective ((String.append_right_inj _).mp same)]
    | _ => exact absurd same (text_ne_of_opening (by dsimp only [opening]; decide))
  | typeNotString =>
    cases other with
    | typeNotString => rfl
    | _ => exact absurd same (text_ne_of_opening (by dsimp only [opening]; decide))
  | missing field =>
    cases other with
    | missing further =>
      have names := (String.append_right_inj _).mp ((String.append_left_inj _).mp same)
      rw [Field.name_injective names]
    | _ => exact absurd same (text_ne_of_opening (by dsimp only [opening]; decide))
  | othersNotList got =>
    cases other with
    | othersNotList kind => rw [Json.Kind.name_injective ((String.append_right_inj _).mp same)]
    | _ => exact absurd same (text_ne_of_opening (by dsimp only [opening]; decide))
  | valueNotNumber got =>
    cases other with
    | valueNotNumber kind => rw [Json.Kind.name_injective ((String.append_right_inj _).mp same)]
    | valueOutOfRange n => exact absurd same (text_valueNotNumber_ne got n)
    | _ => exact absurd same (text_ne_of_opening (by dsimp only [opening]; decide))
  | valueOutOfRange n =>
    cases other with
    | valueOutOfRange k =>
      have numbers := (String.append_right_inj _).mp ((String.append_left_inj _).mp same)
      rw [Int.repr_inj.mp numbers]
    | valueNotNumber kind => exact absurd same.symm (text_valueNotNumber_ne kind n)
    | _ => exact absurd same (text_ne_of_opening (by dsimp only [opening]; decide))
  | tagNotInteger got =>
    cases other with
    | tagNotInteger kind => rw [Json.Kind.name_injective ((String.append_right_inj _).mp same)]
    | _ => exact absurd same (text_ne_of_opening (by dsimp only [opening]; decide))

end Violation

/-- Reading gives the same at every place, but for the beginning of the path in a report. A graph that is
not well formed is reported with a text that determines the steps behind that beginning, and the rule.
The steps lead to a value which breaks this rule, and this is the first of all faults in the traversal:
what has its turn before it can be read. A required field has its turn where it stands in the signature,
and the further operands follow in their order. -/
theorem Node.read_first_fault (d : Json) :
    (∃ outcome : Except Fault Node, ∀ path,
      Node.read d path = outcome.mapError fun fault => fault.under path) ∧
    (¬ d.WellFormed → ∃ fault : Fault, ∃ (suffix : String) (place : Json),
      (∀ path, Node.read d path = .error (fault.under path) ∧
        (fault.under path).path.render = path.render ++ suffix ∧
        ∀ violation : Violation,
          (fault.under path).message = path.render ++ suffix ++ ": " ++ violation.text ↔
            violation = fault.violation) ∧
      (∀ steps : List Step, String.join (steps.map Step.render) = suffix ↔ steps = fault.steps) ∧
      d.at? fault.steps = some place ∧ place.Violates fault.violation ∧
      (∀ other, d.HasFault other → other = fault ∨ fault.turns < other.turns) ∧
      ∀ child, d.Precedes fault child → ∃ root, ∀ path, Node.read child path = .ok root) ∧
    (∀ (category : Category) (i : Nat) (field : Field),
      category.required[i]? = some field → field.turn = i) ∧
    ∀ i, (Step.other i).turn = Field.others.turn + i := by
  refine and_assoc.mp ⟨?_, ⟨fun _ _ _ => Category.turn_of_required, fun i => Nat.add_comm i 2⟩⟩
  cases Node.read_reports d with
  | accepted root result clean =>
    refine ⟨⟨.ok root, result⟩, ?_⟩
    intro malformed
    exact absurd (d.wellFormed_iff.mpr clean) malformed
  | refused fault result found first =>
    refine ⟨⟨.error fault, result⟩, ?_⟩
    intro _
    obtain ⟨place, there, violates⟩ := found.place
    refine ⟨fault, String.join (fault.steps.map Step.render), place, ?_, ?_, there, violates,
      first, ?_⟩
    · intro path
      refine ⟨result path, fault.render_under path, ?_⟩
      intro violation
      rw [MalformedGraph.message, fault.render_under path]
      constructor
      · intro same
        have texts := Text.coe_inj.mp ((Text.append_right_inj _).mp same)
        exact (Violation.text_injective texts).symm
      · exact fun same => by rw [same]; rfl
    · intro steps
      exact ⟨Path.steps_of_text, fun same => by rw [same]⟩
    · intro child precedes
      exact Json.exists_read_of_precedes first precedes

/-- The second further operand of the condition lacks its operand. So it does not matter that one branch
is missing and the other one is no graph, while the operands before it can be read. -/
theorem Node.read_first_fault_in_others :
    let leaf : Json := .obj [("type", .str "value"), ("tag", .int 1)]
    let every : Json := .obj [("type", .str "and"), ("a", leaf), ("b", leaf),
      ("others", .arr [leaf, .obj [("type", .str "sin")], .null])]
    let d : Json := .obj [("type", .str "cond"), ("expr", every), ("elseNode", .null)]
    let place : Path := ⟨"q", [.field .expr, .other 1]⟩
    Node.read d ⟨"q", []⟩ = .error ⟨place, .missing .v⟩ ∧
      (MalformedGraph.mk place (.missing .v)).message =
        "q.expr.others[1]: missing required field 'v'" ∧
      (∀ other, d.HasFault other →
        other = ⟨place.steps, .missing .v⟩ ∨ [0, 3, 0] < other.turns) ∧
      ∃ root, ∀ path, Node.read leaf path = .ok root := by
  intro leaf every d place
  have missing : d.Violates (.missing .ifNode) :=
    @Json.Violates.field _ .conditional .ifNode _ rfl (by decide) (.missing rfl)
  have malformed : ¬ d.WellFormed := fun wellFormed => wellFormed.not_hasFault _ (.here missing)
  obtain ⟨_, report, _⟩ := Node.read_first_fault d
  obtain ⟨fault, _, _, result, _, _, _, first, readable⟩ := report malformed
  have found : Node.read d ⟨"q", []⟩ = .error ⟨place, .missing .v⟩ := rfl
  have same : fault = ⟨place.steps, .missing .v⟩ := by
    have report := Except.error.inj ((result ⟨"q", []⟩).1.symm.trans found)
    injection report with path violation
    injection path with _ steps
    cases fault
    cases violation
    cases steps
    rfl
  subst same
  have expr : d.Operand (.field .expr) every :=
    @Json.Operand.child _ .conditional .expr _ rfl (by decide) rfl
  have earlier : every.Operand (.other 0) leaf :=
    @Json.Operand.other _ (.variadic .and) _ 0 _ rfl rfl rfl rfl
  have precedes : every.Precedes ⟨[.other 1], .missing .v⟩ leaf :=
    @Json.Precedes.here _ _ _ _ 3 [0] earlier rfl (by decide)
  exact ⟨found, rfl, first, readable leaf (.inside expr precedes)⟩

end TickGraph
