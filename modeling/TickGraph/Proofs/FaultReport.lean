import TickGraph.Proofs.Traversal

namespace TickGraph

section Fields

variable {fields : Json.Fields}

/-- No two rules fail for one field. -/
theorem Json.Fields.Violates.unique {field : Field} {violation further : Violation}
    (violates : fields.Violates field violation) (other : fields.Violates field further) :
    violation = further := by
  cases violates with
  | missing absent =>
    cases other with
    | missing _ => rfl
    | _ held => cases absent.symm.trans held
  | notList held plain =>
    cases other with
    | missing absent => cases absent.symm.trans held
    | notList there _ => cases held.symm.trans there; rfl
  | notNumber held int float =>
    cases other with
    | missing absent => cases absent.symm.trans held
    | notNumber there _ _ => cases held.symm.trans there; rfl
    | tooLarge there _ => cases held.symm.trans there; exact absurd rfl (int _)
  | tooLarge held large =>
    cases other with
    | missing absent => cases absent.symm.trans held
    | notNumber there int _ => cases held.symm.trans there; exact absurd rfl (int _)
    | tooLarge there _ => cases held.symm.trans there; rfl
  | notInteger held plain =>
    cases other with
    | missing absent => cases absent.symm.trans held
    | notInteger there _ => cases held.symm.trans there; rfl

/-- Where a rule fails for a field there are no operands to look at. -/
theorem Json.Fields.FaultOf.eq_of_violates {field : Field} {violation : Violation} {fault : Fault}
    (faulty : fields.FaultOf field fault) (violates : fields.Violates field violation) :
    fault = ⟨[], violation⟩ := by
  cases faulty with
  | here other => rw [other.unique violates]
  | child child held inside =>
    exact absurd violates (Json.Fields.not_violates_child child (by rw [held]; rfl))
  | other held item inside => exact absurd violates (Json.Fields.not_violates_others held)

theorem Reports.sole {α : Type} {field : Field} {violation : Violation}
    {run : Path → Except MalformedGraph α} (violates : fields.Violates field violation)
    (refuse : ∀ path, run path = .error ⟨path, violation⟩) :
    Reports (fields.FaultOf field) run := by
  refine .refused ⟨[], violation⟩ ?_ (.here violates) ?_
  · intro path
    rw [refuse path]
    simp [Fault.under]
  · exact fun other faulty => Or.inl (faulty.eq_of_violates violates)

theorem Reader.child_reports {field : Field} (child : field.isChild = true)
    (each : ∀ d, fields.lookup field.key = some d → Reports d.HasFault (Node.read d)) :
    Reports (fields.FaultOf field) (Reader.plain.child field fields) := by
  cases held : fields.lookup field.key with
  | none =>
    refine .sole (.missing held) fun path => ?_
    rw [Reader.child_eq, held]
    rfl
  | some d =>
    have run : Reader.plain.child field fields =
        fun path => Node.read d (path.down (.field field)) := by
      funext path
      rw [Reader.child_eq, held]
      rfl
    rw [run]
    refine ((each d held).below (.field field)).congr ?_
    intro fault
    constructor
    · rintro ⟨inner, inside, rfl⟩
      exact .child child held inside
    · intro faulty
      cases faulty with
      | here violates =>
        exact absurd violates (Json.Fields.not_violates_child child (by rw [held]; rfl))
      | child _ there inside =>
        cases held.symm.trans there
        exact ⟨_, inside, rfl⟩
      | other there item inside => cases child

/-- Reads a leaf by a function that refuses exactly what breaks a rule for its field. -/
theorem Reader.leaf_reports {α : Type} {field : Field} {read : Json → Except Violation α}
    (leaf : field.isChild = false) (single : field ≠ .others)
    (accepts : ∀ d x, fields.lookup field.key = some d → read d = .ok x →
      ∀ violation, ¬ fields.Violates field violation)
    (refuses : ∀ d violation, fields.lookup field.key = some d → read d = .error violation →
      fields.Violates field violation) :
    Reports (fields.FaultOf field) fun path => Reader.plain.leaf fields field path read := by
  cases held : fields.lookup field.key with
  | none =>
    refine .sole (.missing held) fun path => ?_
    simp only [Reader.leaf, held]
    rfl
  | some d =>
    cases result : read d with
    | error violation =>
      refine .sole (refuses d violation held result) fun path => ?_
      simp only [Reader.leaf, held, result]
      rfl
    | ok x =>
      refine .accepted x (fun path => by simp only [Reader.leaf, held, result]; rfl) ?_
      intro fault faulty
      cases faulty with
      | here violates => exact accepts d x held result _ violates
      | child child => rw [leaf] at child; cases child
      | other there item inside => exact single rfl

end Fields

/-- A fault of one of the items of a list, of which the first has number `i`. -/
def Fault.InItems (items : List Json) (i : Nat) (fault : Fault) : Prop :=
  ∃ (k : Nat) (d : Json) (inner : Fault), items[k]? = some d ∧ d.HasFault inner ∧
    fault = inner.below (.other (i + k))

theorem Fault.inItems_cons (d : Json) (rest : List Json) (i : Nat) (fault : Fault) :
    Fault.InItems (d :: rest) i fault ↔
      (∃ inner, d.HasFault inner ∧ fault = inner.below (.other i)) ∨
        Fault.InItems rest (i + 1) fault := by
  constructor
  · rintro ⟨k, other, inner, item, inside, rfl⟩
    cases k with
    | zero =>
      cases item
      exact Or.inl ⟨inner, inside, rfl⟩
    | succ k =>
      refine Or.inr ⟨k, other, inner, item, inside, ?_⟩
      rw [Nat.add_assoc, Nat.add_comm 1 k]
  · rintro (⟨inner, inside, rfl⟩ | ⟨k, other, inner, item, inside, rfl⟩)
    · exact ⟨0, d, inner, rfl, inside, rfl⟩
    · refine ⟨k + 1, other, inner, item, inside, ?_⟩
      rw [Nat.add_assoc, Nat.add_comm 1 k]

theorem Reader.items_reports {items : List Json}
    (each : ∀ d ∈ items, Reports d.HasFault (Node.read d)) (i : Nat) :
    Reports (Fault.InItems items i) (Reader.plain.items items i) := by
  induction items generalizing i with
  | nil =>
    refine .accepted [] (fun _ => rfl) ?_
    rintro fault ⟨k, d, inner, item, _⟩
    cases item
  | cons d rest ih =>
    have first := (each d (List.mem_cons_self ..)).below (.other i)
    have others := ih (fun other member => each other (List.mem_cons_of_mem _ member)) (i + 1)
    have all (node : Node) : Reports (Fault.InItems rest (i + 1)) (fun path =>
        Reader.plain.items rest (i + 1) path >>= fun nodes => pure (node :: nodes)) := by
      refine (others.bind (fun nodes => ?_) ?_).congr fun fault => iff_of_eq (or_false _)
      · exact .accepted (node :: nodes) (fun _ => rfl) fun _ => id
      · exact fun _ _ _ => False.elim
    refine (first.bind all ?_).congr fun fault => (Fault.inItems_cons d rest i fault).symm
    rintro _ _ ⟨inner, _, rfl⟩ ⟨k, other, further, _, _, rfl⟩
    rw [Fault.turns_below, Fault.turns_below, List.cons_lt_cons_iff]
    exact Or.inl (by simp only [Step.turn]; omega)

section Leaves

variable {fields : Json.Fields}

theorem Reader.others_reports
    (each : ∀ items, fields.lookup Field.others.key = some (.arr items) →
      ∀ d ∈ items, Reports d.HasFault (Node.read d)) :
    Reports (fields.FaultOf .others) (Reader.plain.others fields) := by
  cases held : fields.lookup Field.others.key with
  | none =>
    refine .sole (.missing held) fun path => ?_
    rw [Reader.others_eq, held]
    rfl
  | some d =>
    by_cases list : ∃ items, d = .arr items
    · obtain ⟨items, rfl⟩ := list
      have run : Reader.plain.others fields = Reader.plain.items items 0 := by
        funext path
        rw [Reader.others_eq, held]
      rw [run]
      refine (Reader.items_reports (each items held) 0).congr ?_
      intro fault
      constructor
      · rintro ⟨k, d, inner, item, inside, rfl⟩
        rw [Nat.zero_add]
        exact .other held item inside
      · intro faulty
        cases faulty with
        | here violates => exact absurd violates (Json.Fields.not_violates_others held)
        | child child => cases child
        | @other _ i _ inner there item inside =>
          cases held.symm.trans there
          exact ⟨i, _, inner, item, inside, by rw [Nat.zero_add]⟩
    · have other : ∀ items, d ≠ .arr items := fun items same => list ⟨items, same⟩
      refine .sole (.notList held other) fun path => ?_
      rw [Reader.others_eq, held]
      cases d with
      | arr items => exact absurd rfl (other items)
      | _ => rfl

theorem Number.doubleLimit_eq : Number.doubleLimit = 2 ^ 1024 - 2 ^ 970 := by
  decide +kernel

theorem literalValue_int (n : Int) :
    literalValue (.int n) =
      if n.natAbs < 2 ^ 1024 - 2 ^ 970 then .ok (Float.ofInt n)
      else .error (.valueOutOfRange n) := by
  unfold literalValue Number.toDouble
  rw [Number.doubleLimit_eq]
  by_cases fits : n.natAbs < 2 ^ 1024 - 2 ^ 970
  · simp only [if_pos fits]
  · simp only [if_neg fits]

theorem referenceTag_float_of_ok {x : Float} {n : Int} (result : referenceTag (.float x) = .ok n) :
    Double.toRat? x = some (n : ℚ) := by
  unfold referenceTag at result
  dsimp only at result
  cases found : Double.toInt? x with
  | none =>
    rw [found] at result
    cases result
  | some whole =>
    rw [found] at result
    cases result
    exact (Double.toInt?_eq_some_iff x n).mp found

theorem referenceTag_float_of_error {x : Float} {violation : Violation}
    (result : referenceTag (.float x) = .error violation) :
    violation = .tagNotInteger .float ∧ ¬ (Json.float x).IsTag := by
  unfold referenceTag at result
  dsimp only at result
  cases found : Double.toInt? x with
  | some whole =>
    rw [found] at result
    cases result
  | none =>
    rw [found] at result
    cases result
    refine ⟨rfl, ?_⟩
    intro good
    cases good with
    | float whole =>
      rw [(Double.toInt?_eq_some_iff x _).mpr whole] at found
      cases found

theorem Reader.literal_reports :
    Reports (fields.FaultOf .value) fun path => Reader.plain.leaf fields .value path literalValue := by
  refine Reader.leaf_reports rfl nofun ?_ ?_
  · intro d x held result violation
    refine Json.Fields.not_violates_value held ?_
    cases d with
    | int n =>
      rw [literalValue_int] at result
      split at result
      · rename_i fits
        exact .int fits
      · cases result
    | float x => exact .float x
    | _ => cases result
  · intro d violation held result
    cases d with
    | int n =>
      rw [literalValue_int] at result
      split at result
      · cases result
      · rename_i large
        cases result
        exact .tooLarge held (Nat.le_of_not_lt large)
    | float x => cases result
    | _ =>
      cases result
      exact .notNumber held (fun _ => nofun) fun _ => nofun

theorem Reader.tag_reports :
    Reports (fields.FaultOf .tag) fun path => Reader.plain.leaf fields .tag path referenceTag := by
  refine Reader.leaf_reports rfl nofun ?_ ?_
  · intro d n held result violation
    refine Json.Fields.not_violates_tag held ?_
    cases d with
    | int n => exact .int n
    | float x => exact .float (referenceTag_float_of_ok result)
    | _ => cases result
  · intro d violation held result
    cases d with
    | int n => cases result
    | float x =>
      obtain ⟨rfl, other⟩ := referenceTag_float_of_error result
      exact .notInteger held other
    | _ =>
      cases result
      exact .notInteger held nofun

end Leaves

theorem Node.read_scalar {d : Json} (plain : ∀ fields, d ≠ .obj fields) (path : Path) :
    Node.read d path = .error ⟨path, .notObject d.kind⟩ := by
  cases d with
  | obj fields => exact absurd rfl (plain fields)
  | _ => rfl

theorem Node.read_untyped {fields : Json.Fields}
    (untyped : ∀ tag, fields.lookup Json.typeKey ≠ some (.str tag)) (path : Path) :
    Node.read (.obj fields) path = .error ⟨path, .typeNotString⟩ := by
  rw [Node.read_obj]
  split
  · rename_i tag type
    exact absurd type (untyped tag)
  · rfl

theorem Node.read_foreign {fields : Json.Fields} {tag : Text}
    (type : fields.lookup Json.typeKey = some (.str tag))
    (unsupported : ∀ op : Operator, op.tag = tag → op.supported = false) (path : Path) :
    Node.read (.obj fields) path = .ok (.unsupported tag fields) := by
  simp only [Node.read_obj, type]
  cases named : Operator.ofTag? tag with
  | none => rfl
  | some op =>
    have statement := unsupported op (Operator.tag_of_ofTag? named)
    cases op with
    | statement s =>
      cases Operator.tag_of_ofTag? named
      rfl
    | variadic op => cases op <;> cases statement
    | _ => cases statement

/-- Reading a node with a supported type reports the first of the faults in its required fields. -/
theorem Node.read_typed_reports {fields : Json.Fields} {op : Operator}
    (type : fields.lookup Json.typeKey = some (.str op.tag)) (supported : op.supported = true)
    (each : ∀ name d, fields.lookup name = some d → Reports d.HasFault (Node.read d))
    (items : ∀ name items, fields.lookup name = some (.arr items) →
      ∀ d ∈ items, Reports d.HasFault (Node.read d)) :
    Reports (fields.FaultIn op.category.required) (Node.read (.obj fields)) := by
  have child {field : Field} (single : field.isChild = true) :=
    Reader.child_reports single (each field.key)
  have others := Reader.others_reports (items Field.others.key)
  change Reports _ fun path => Node.read (.obj fields) path
  simp only [Node.read_typed type, Reader.operator]
  cases op with
  | variadic op =>
    have required : (Operator.variadic op).category.required = [.a, .b, .others] := by
      cases op <;> rfl
    rw [required]
    refine .field (child rfl) (fun a => .field (child rfl) (fun b => ?_) ?_) ?_
    · exact .field others (fun rest => .done _) nofun
    · decide
    · decide
  | unary op => exact .field (child rfl) (fun v => .done _) nofun
  | comparison op =>
    change Reports (fields.FaultIn [.left, .right]) _
    refine .field (child rfl) (fun left => ?_) ?_
    · exact .field (child rfl) (fun right => .done _) nofun
    · decide
  | reference => exact .field Reader.tag_reports (fun tag => .done _) nofun
  | literal => exact .field Reader.literal_reports (fun x => .done _) nofun
  | conditional =>
    change Reports (fields.FaultIn [.expr, .ifNode, .elseNode]) _
    refine .field (child rfl) (fun expr => .field (child rfl) (fun ifNode => ?_) ?_) ?_
    · exact .field (child rfl) (fun elseNode => .done _) nofun
    · decide
    · decide
  | statement s => cases supported

/-- Reading a graph reports the first of its faults. -/
theorem Node.read_reports (d : Json) : Reports d.HasFault (Node.read d) := by
  induction d with
  | scalar d plain =>
    refine .refused ⟨[], .notObject d.kind⟩ ?_ (.here (.notObject plain)) ?_
    · intro path
      rw [Node.read_scalar plain]
      simp [Fault.under]
    · intro other faulty
      cases faulty with
      | here violates =>
        cases violates with
        | notObject _ => exact Or.inl rfl
        | _ => exact absurd rfl (plain _)
      | inside operand _ => cases operand <;> exact absurd rfl (plain _)
  | obj fields children items =>
    cases fields.typeCase with
    | untyped other =>
      refine .refused ⟨[], .typeNotString⟩ ?_ (.here (.untyped other)) ?_
      · intro path
        rw [Node.read_untyped other]
        simp [Fault.under]
      · intro further faulty
        cases faulty with
        | here violates =>
          cases violates with
          | notObject plain => exact absurd rfl (plain fields)
          | untyped _ => exact Or.inl rfl
          | field type _ _ => exact absurd type (other _)
        | inside operand _ =>
          cases operand with
          | child type _ _ => exact absurd type (other _)
          | other type _ _ _ => exact absurd type (other _)
    | foreign tag type unsupported =>
      exact .accepted _ (Node.read_foreign type unsupported)
        (Json.not_hasFault_of_foreign type unsupported)
    | node op type supported =>
      exact (Node.read_typed_reports type supported children items).congr (Json.hasFault_iff type)

end TickGraph
