import TickGraph.Proofs.Grammar

namespace TickGraph

/-- The report of a fault in a graph that stands under a path. -/
def Fault.under (fault : Fault) (path : Path) : MalformedGraph :=
  ⟨⟨path.root, path.steps ++ fault.steps⟩, fault.violation⟩

theorem Fault.under_below (fault : Fault) (step : Step) (path : Path) :
    (fault.below step).under path = fault.under (path.down step) := by
  simp [Fault.under, Fault.below, Path.down]

/-- The number of operands that a node has before a field. -/
def Field.turn : Field → Nat
  | .b => 1
  | .right => 1
  | .ifNode => 1
  | .elseNode => 2
  | .others => 2
  | _ => 0

/-- A field has its turn where it stands among the required ones. -/
theorem Category.turn_of_required {category : Category} {i : Nat} {field : Field}
    (held : category.required[i]? = some field) : field.turn = i := by
  have all : ∀ entry ∈ category.required.zipIdx, entry.1.turn = entry.2 := by
    cases category <;> decide
  exact all (field, i) (List.mem_zipIdx_iff_getElem?.mpr held)

/-- The number of operands that a node has before a step. -/
def Step.turn : Step → Nat
  | .field f => f.turn
  | .other i => i + 2

/-- The field that a rule is about; the first two are about the node as a whole. -/
def Violation.field? : Violation → Option Field
  | .notObject _ => none
  | .typeNotString => none
  | .missing field => some field
  | .othersNotList _ => some .others
  | .valueNotNumber _ => some .value
  | .valueOutOfRange _ => some .value
  | .tagNotInteger _ => some .tag

/-- When a fault is met in the traversal of a graph: the turns are compared one after the other, and a
node comes before what is below it. -/
def Fault.turns (fault : Fault) : List Nat :=
  fault.steps.map Step.turn ++ (fault.violation.field?.map Field.turn).toList

theorem Fault.turns_below (fault : Fault) (step : Step) :
    (fault.below step).turns = step.turn :: fault.turns := rfl

/-- A reading accepts if there are none of these faults, and else reports the first of them. What it
gives does not depend on the place of the graph, but for the beginning of the reported path. -/
inductive Reports {α : Type} (faults : Fault → Prop) (run : Path → Except MalformedGraph α) : Prop
  | accepted (x : α) (result : ∀ path, run path = .ok x) (clean : ∀ fault, ¬ faults fault)
  | refused (fault : Fault) (result : ∀ path, run path = .error (fault.under path))
      (found : faults fault)
      (first : ∀ other, faults other → other = fault ∨ fault.turns < other.turns)

namespace Reports

variable {α β : Type} {faults later : Fault → Prop} {run : Path → Except MalformedGraph α}

theorem congr (same : ∀ fault, faults fault ↔ later fault) (reports : Reports faults run) :
    Reports later run := by
  have equal : faults = later := funext fun fault => propext (same fault)
  rw [← equal]
  exact reports

/-- Of two readings the second one counts only if the first one accepts, so all faults of the first
one have to come before those of the second one. -/
theorem bind {next : α → Path → Except MalformedGraph β} (reports : Reports faults run)
    (after : ∀ x, Reports later (next x))
    (order : ∀ fault other, faults fault → later other → fault.turns < other.turns) :
    Reports (fun fault => faults fault ∨ later fault) fun path => run path >>= (next · path) := by
  cases reports with
  | refused fault result found first =>
    refine .refused fault ?_ (Or.inl found) ?_
    · intro path
      rw [result path]
      rfl
    · intro other present
      rcases present with here | behind
      · exact first other here
      · exact Or.inr (order fault other found behind)
  | accepted x result clean =>
    cases after x with
    | accepted y last empty =>
      refine .accepted y ?_ fun fault present => present.elim (clean fault) (empty fault)
      intro path
      rw [result path]
      exact last path
    | refused fault last found first =>
      refine .refused fault ?_ (Or.inr found) ?_
      · intro path
        rw [result path]
        exact last path
      · intro other present
        rcases present with here | behind
        · exact absurd here (clean other)
        · exact first other behind

theorem below (reports : Reports faults run) (step : Step) :
    Reports (fun fault => ∃ inner, faults inner ∧ fault = inner.below step)
      fun path => run (path.down step) := by
  cases reports with
  | accepted x result clean =>
    refine .accepted x (fun path => result _) ?_
    rintro fault ⟨inner, present, _⟩
    exact clean inner present
  | refused fault result found first =>
    refine .refused (fault.below step) ?_ ⟨fault, found, rfl⟩ ?_
    · intro path
      rw [Fault.under_below]
      exact result _
    · rintro other ⟨inner, present, rfl⟩
      rcases first inner present with same | smaller
      · exact Or.inl (by rw [same])
      · refine Or.inr ?_
        rw [Fault.turns_below, Fault.turns_below, List.cons_lt_cons_iff]
        exact Or.inr ⟨rfl, smaller⟩

end Reports

/-- The faults of a node that lie in one of its required fields. -/
inductive Json.Fields.FaultOf (fields : Json.Fields) : Field → Fault → Prop
  | here {field : Field} {violation : Violation} (violates : fields.Violates field violation) :
      FaultOf fields field ⟨[], violation⟩
  | child {field : Field} {d : Json} {fault : Fault} (child : field.isChild = true)
      (held : fields.lookup field.key = some d) (inside : d.HasFault fault) :
      FaultOf fields field (fault.below (.field field))
  | other {items : List Json} {i : Nat} {d : Json} {fault : Fault}
      (held : fields.lookup Field.others.key = some (.arr items)) (item : items[i]? = some d)
      (inside : d.HasFault fault) : FaultOf fields .others (fault.below (.other i))

/-- The faults of a node that lie in one of these fields. -/
def Json.Fields.FaultIn (fields : Json.Fields) (among : List Field) (fault : Fault) : Prop :=
  ∃ field ∈ among, fields.FaultOf field fault

theorem Category.mem_fields_of_isChild {category : Category} {field : Field}
    (required : field ∈ category.required) (child : field.isChild = true) :
    field ∈ category.fields := by
  rcases Category.mem_required_iff.mp required with listed | extra
  · exact listed
  · rcases Category.extra?_eq_some_iff.mp extra with ⟨_, rfl⟩ | ⟨_, rfl⟩ | ⟨_, rfl⟩ <;> cases child

theorem Category.extra?_of_others {category : Category} (required : .others ∈ category.required) :
    category.extra? = some .others := by
  rcases Category.mem_required_iff.mp required with listed | extra
  · cases Category.isChild_of_mem_fields listed
  · exact extra

/-- All faults of a node with a supported type lie in its required fields. -/
theorem Json.hasFault_iff {fields : Json.Fields} {op : Operator}
    (type : fields.lookup Json.typeKey = some (.str op.tag)) (fault : Fault) :
    fields.FaultIn op.category.required fault ↔ (Json.obj fields).HasFault fault := by
  constructor
  · rintro ⟨field, required, faulty⟩
    cases faulty with
    | here violates => exact .here (.field type required violates)
    | child child held inside =>
      exact .inside (.child type (Category.mem_fields_of_isChild required child) held) inside
    | other held item inside =>
      exact .inside (.other type (Category.extra?_of_others required) held item) inside
  · intro faulty
    cases faulty with
    | here violates =>
      cases violates with
      | notObject other => exact absurd rfl (other fields)
      | untyped other => exact absurd type (other op.tag)
      | field typed required violates =>
        cases Operator.eq_of_typed type typed
        exact ⟨_, required, .here violates⟩
    | inside operand held =>
      cases operand with
      | child typed listed there =>
        cases Operator.eq_of_typed type typed
        have required := Category.mem_required_iff.mpr (Or.inl listed)
        exact ⟨_, required, .child (Category.isChild_of_mem_fields listed) there held⟩
      | other typed listed there item =>
        cases Operator.eq_of_typed type typed
        exact ⟨.others, Category.mem_required_iff.mpr (Or.inr listed), .other there item held⟩

section Fields

variable {fields : Json.Fields}

theorem Json.Fields.Violates.field? {field : Field} {violation : Violation}
    (violates : fields.Violates field violation) : violation.field? = some field := by
  cases violates <;> rfl

/-- A fault in a field is met when it is the turn of that field or, in a list, later. -/
theorem Json.Fields.FaultOf.turns {field : Field} {fault : Fault}
    (faulty : fields.FaultOf field fault) :
    ∃ turn rest, fault.turns = turn :: rest ∧ field.turn ≤ turn ∧
      (field.isChild = true → turn = field.turn) := by
  cases faulty with
  | here violates =>
    refine ⟨field.turn, [], ?_, Nat.le_refl _, fun _ => rfl⟩
    simp [Fault.turns, violates.field?]
  | child child held inside => exact ⟨_, _, Fault.turns_below _ _, Nat.le_refl _, fun _ => rfl⟩
  | other held item inside =>
    refine ⟨_, _, Fault.turns_below _ _, ?_, fun child => by cases child⟩
    exact Nat.le_add_left _ _

theorem Json.Fields.FaultOf.turns_lt {field further : Field} {fault other : Fault}
    (faulty : fields.FaultOf field fault) (behind : fields.FaultOf further other)
    (child : field.isChild = true) (order : field.turn < further.turn) :
    fault.turns < other.turns := by
  obtain ⟨turn, rest, turns, _, same⟩ := faulty.turns
  obtain ⟨otherTurn, otherRest, otherTurns, bound, _⟩ := behind.turns
  rw [turns, otherTurns, List.cons_lt_cons_iff]
  have equal := same child
  exact Or.inl (by omega)

/-- Reads one required field after the other. -/
theorem Reports.field {α β : Type} {field : Field} {further : List Field}
    {run : Path → Except MalformedGraph α} {next : α → Path → Except MalformedGraph β}
    (reports : Reports (fields.FaultOf field) run)
    (after : ∀ x, Reports (fields.FaultIn further) (next x))
    (order : ∀ behind ∈ further, field.isChild = true ∧ field.turn < behind.turn) :
    Reports (fields.FaultIn (field :: further)) fun path => run path >>= (next · path) := by
  refine (reports.bind after ?_).congr ?_
  · rintro fault other faulty ⟨behind, member, present⟩
    obtain ⟨child, less⟩ := order behind member
    exact faulty.turns_lt present child less
  · intro fault
    simp [Json.Fields.FaultIn]

theorem Reports.done {α : Type} (x : α) :
    Reports (fields.FaultIn []) fun _ => (pure x : Except MalformedGraph α) := by
  refine .accepted x (fun _ => rfl) ?_
  rintro fault ⟨field, member, _⟩
  cases member

end Fields

end TickGraph
