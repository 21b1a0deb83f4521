import TickGraph.Proofs.FaultReport

namespace TickGraph

/-- The tree that a graph writes. Fields that an operator does not require are of no account. -/
inductive Json.Writes : Json → Node → Prop
  | number {fields : Json.Fields} {d : Json} {x : Float}
      (type : fields.lookup Json.typeKey = some (.str Operator.literal.tag))
      (held : fields.lookup Field.value.key = some d) (content : literalValue d = .ok x) :
      Writes (.obj fields) (.number x)
  | reference {fields : Json.Fields} {d : Json} {tag : Int}
      (type : fields.lookup Json.typeKey = some (.str Operator.reference.tag))
      (held : fields.lookup Field.tag.key = some d) (content : referenceTag d = .ok tag) :
      Writes (.obj fields) (.reference tag)
  | variadic {fields : Json.Fields} {op : VariadicOp} {atA atB : Json} {items : List Json}
      {a b : Node} {others : List Node}
      (type : fields.lookup Json.typeKey = some (.str (Operator.variadic op).tag))
      (heldA : fields.lookup Field.a.key = some atA) (writesA : Writes atA a)
      (heldB : fields.lookup Field.b.key = some atB) (writesB : Writes atB b)
      (list : fields.lookup Field.others.key = some (.arr items))
      (length : items.length = others.length)
      (each : ∀ (i : Nat) (d : Json) (node : Node), items[i]? = some d → others[i]? = some node →
        Writes d node) :
      Writes (.obj fields) (.variadic op a b others)
  | unary {fields : Json.Fields} {op : UnaryOp} {atV : Json} {v : Node}
      (type : fields.lookup Json.typeKey = some (.str (Operator.unary op).tag))
      (held : fields.lookup Field.v.key = some atV) (writes : Writes atV v) :
      Writes (.obj fields) (.unary op v)
  | comparison {fields : Json.Fields} {op : ComparisonOp} {atLeft atRight : Json}
      {left right : Node}
      (type : fields.lookup Json.typeKey = some (.str (Operator.comparison op).tag))
      (heldLeft : fields.lookup Field.left.key = some atLeft) (writesLeft : Writes atLeft left)
      (heldRight : fields.lookup Field.right.key = some atRight)
      (writesRight : Writes atRight right) :
      Writes (.obj fields) (.comparison op left right)
  | conditional {fields : Json.Fields} {atExpr atIf atElse : Json} {expr ifNode elseNode : Node}
      (type : fields.lookup Json.typeKey = some (.str Operator.conditional.tag))
      (heldExpr : fields.lookup Field.expr.key = some atExpr) (writesExpr : Writes atExpr expr)
      (heldIf : fields.lookup Field.ifNode.key = some atIf) (writesIf : Writes atIf ifNode)
      (heldElse : fields.lookup Field.elseNode.key = some atElse)
      (writesElse : Writes atElse elseNode) :
      Writes (.obj fields) (.conditional expr ifNode elseNode)
  | unsupported {fields : Json.Fields} {tag : Text}
      (type : fields.lookup Json.typeKey = some (.str tag))
      (foreign : ∀ op : Operator, op.tag = tag → op.supported = false) :
      Writes (.obj fields) (.unsupported tag fields)

theorem Except.bind_eq_ok_iff {ε α β : Type} {run : Except ε α} {next : α → Except ε β} {y : β} :
    run >>= next = .ok y ↔ ∃ x, run = .ok x ∧ next x = .ok y := by
  cases run with
  | error e => exact ⟨nofun, fun ⟨_, absent, _⟩ => nomatch absent⟩
  | ok x => exact ⟨fun after => ⟨x, rfl, after⟩, fun ⟨_, same, after⟩ => Except.ok.inj same ▸ after⟩

section Fields

variable {fields : Json.Fields} {path : Path}

theorem Reader.child_eq_ok_iff {field : Field} {node : Node} :
    Reader.plain.child field fields path = .ok node ↔
      ∃ d, fields.lookup field.key = some d ∧ Node.read d (path.field field) = .ok node := by
  rw [Reader.child_eq]
  cases fields.lookup field.key with
  | none => simp
  | some d => simp

theorem Reader.leaf_eq_ok_iff {α : Type} {field : Field} {read : Json → Except Violation α}
    {x : α} :
    Reader.plain.leaf fields field path read = .ok x ↔
      ∃ d, fields.lookup field.key = some d ∧ read d = .ok x := by
  unfold Reader.leaf
  cases fields.lookup field.key with
  | none => simp
  | some d => cases result : read d <;> simp [result, pure, Except.pure]

theorem Reader.others_eq_ok_iff {nodes : List Node} :
    Reader.plain.others fields path = .ok nodes ↔
      ∃ items, fields.lookup Field.others.key = some (.arr items) ∧
        Reader.plain.items items 0 path = .ok nodes := by
  rw [Reader.others_eq]
  cases fields.lookup Field.others.key with
  | none => simp
  | some d => cases d <;> simp

/-- A list is read item by item. -/
theorem Reader.items_eq_ok_iff {items : List Json} {i : Nat} {nodes : List Node} :
    Reader.plain.items items i path = .ok nodes ↔
      items.length = nodes.length ∧ ∀ (k : Nat) (d : Json) (node : Node), items[k]? = some d →
        nodes[k]? = some node → Node.read d (path.other (i + k)) = .ok node := by
  induction items generalizing i nodes with
  | nil =>
    simp only [Reader.items, List.length_nil]
    constructor
    · intro same
      cases same
      exact ⟨rfl, nofun⟩
    · rintro ⟨length, -⟩
      rw [List.eq_nil_of_length_eq_zero length.symm]
      rfl
  | cons d rest ih =>
    simp only [Reader.items, Except.bind_eq_ok_iff]
    constructor
    · rintro ⟨node, first, others, later, same⟩
      cases same
      obtain ⟨length, each⟩ := ih.mp later
      refine ⟨congrArg (· + 1) length, ?_⟩
      intro k other found item present
      cases k with
      | zero =>
        cases item
        cases present
        exact first
      | succ k =>
        have there := each k other found item present
        rwa [Nat.add_assoc, Nat.add_comm 1 k] at there
    · rintro ⟨length, each⟩
      cases nodes with
      | nil => cases length
      | cons node others =>
        refine ⟨node, each 0 d node rfl rfl, others, ih.mpr ⟨Nat.succ.inj length, ?_⟩, rfl⟩
        intro k other found item present
        rw [Nat.add_assoc, Nat.add_comm 1 k]
        exact each (k + 1) other found item present

end Fields

/-- What is written is read. -/
theorem Json.Writes.read {d : Json} {root : Node} (writes : d.Writes root) (path : Path) :
    Node.read d path = .ok root := by
  induction writes generalizing path with
  | number type held content =>
    simp only [Node.read_typed type, Reader.operator]
    rw [Reader.leaf_eq_ok_iff.mpr ⟨_, held, content⟩]
    rfl
  | reference type held content =>
    simp only [Node.read_typed type, Reader.operator]
    rw [Reader.leaf_eq_ok_iff.mpr ⟨_, held, content⟩]
    rfl
  | variadic type heldA _ heldB _ list length _ ihA ihB ihEach =>
    simp only [Node.read_typed type, Reader.operator]
    have readA := Reader.child_eq_ok_iff.mpr ⟨_, heldA, ihA (path.field .a)⟩
    have readB := Reader.child_eq_ok_iff.mpr ⟨_, heldB, ihB (path.field .b)⟩
    have items := Reader.items_eq_ok_iff.mpr
      ⟨length, fun k d node item present => ihEach k d node item present (path.other (0 + k))⟩
    have others := Reader.others_eq_ok_iff.mpr ⟨_, list, items⟩
    rw [readA, readB, others]
    rfl
  | unary type held _ ih =>
    simp only [Node.read_typed type, Reader.operator]
    rw [Reader.child_eq_ok_iff.mpr ⟨_, held, ih (path.field .v)⟩]
    rfl
  | comparison type heldLeft _ heldRight _ ihLeft ihRight =>
    simp only [Node.read_typed type, Reader.operator]
    rw [Reader.child_eq_ok_iff.mpr ⟨_, heldLeft, ihLeft (path.field .left)⟩,
      Reader.child_eq_ok_iff.mpr ⟨_, heldRight, ihRight (path.field .right)⟩]
    rfl
  | conditional type heldExpr _ heldIf _ heldElse _ ihExpr ihIf ihElse =>
    simp only [Node.read_typed type, Reader.operator]
    rw [Reader.child_eq_ok_iff.mpr ⟨_, heldExpr, ihExpr (path.field .expr)⟩,
      Reader.child_eq_ok_iff.mpr ⟨_, heldIf, ihIf (path.field .ifNode)⟩,
      Reader.child_eq_ok_iff.mpr ⟨_, heldElse, ihElse (path.field .elseNode)⟩]
    rfl
  | unsupported type foreign => exact Node.read_foreign type foreign path

/-- A supported node is read from what its operator requires. -/
theorem Json.writes_of_typed {fields : Json.Fields} {op : Operator} {path : Path} {root : Node}
    (type : fields.lookup Json.typeKey = some (.str op.tag)) (supported : op.supported = true)
    (children : ∀ name d, fields.lookup name = some d → ∀ path node, Node.read d path = .ok node →
      d.Writes node)
    (items : ∀ name items, fields.lookup name = some (.arr items) → ∀ d ∈ items, ∀ path node,
      Node.read d path = .ok node → d.Writes node)
    (success : Node.read (.obj fields) path = .ok root) : (Json.obj fields).Writes root := by
  have child {field : Field} {node : Node}
      (result : Reader.plain.child field fields path = .ok node) :
      ∃ d, fields.lookup field.key = some d ∧ d.Writes node := by
    obtain ⟨d, held, inner⟩ := Reader.child_eq_ok_iff.mp result
    exact ⟨d, held, children _ d held _ node inner⟩
  simp only [Node.read_typed type, Reader.operator] at success
  cases op with
  | variadic op =>
    obtain ⟨a, readA, success⟩ := Except.bind_eq_ok_iff.mp success
    obtain ⟨b, readB, success⟩ := Except.bind_eq_ok_iff.mp success
    obtain ⟨others, readOthers, success⟩ := Except.bind_eq_ok_iff.mp success
    obtain ⟨_, heldA, writesA⟩ := child readA
    obtain ⟨_, heldB, writesB⟩ := child readB
    obtain ⟨all, list, each⟩ := Reader.others_eq_ok_iff.mp readOthers
    obtain ⟨length, each⟩ := Reader.items_eq_ok_iff.mp each
    cases success
    refine .variadic type heldA writesA heldB writesB list length ?_
    intro i d node item present
    exact items _ all list d (List.mem_of_getElem? item) _ node (each i d node item present)
  | unary op =>
    obtain ⟨v, readV, success⟩ := Except.bind_eq_ok_iff.mp success
    obtain ⟨_, held, writes⟩ := child readV
    cases success
    exact .unary type held writes
  | comparison op =>
    obtain ⟨left, readLeft, success⟩ := Except.bind_eq_ok_iff.mp success
    obtain ⟨right, readRight, success⟩ := Except.bind_eq_ok_iff.mp success
    obtain ⟨_, heldLeft, writesLeft⟩ := child readLeft
    obtain ⟨_, heldRight, writesRight⟩ := child readRight
    cases success
    exact .comparison type heldLeft writesLeft heldRight writesRight
  | reference =>
    obtain ⟨tag, readTag, success⟩ := Except.bind_eq_ok_iff.mp success
    obtain ⟨_, held, content⟩ := Reader.leaf_eq_ok_iff.mp readTag
    cases success
    exact .reference type held content
  | literal =>
    obtain ⟨x, readValue, success⟩ := Except.bind_eq_ok_iff.mp success
    obtain ⟨_, held, content⟩ := Reader.leaf_eq_ok_iff.mp readValue
    cases success
    exact .number type held content
  | conditional =>
    obtain ⟨expr, readExpr, success⟩ := Except.bind_eq_ok_iff.mp success
    obtain ⟨ifNode, readIf, success⟩ := Except.bind_eq_ok_iff.mp success
    obtain ⟨elseNode, readElse, success⟩ := Except.bind_eq_ok_iff.mp success
    obtain ⟨_, heldExpr, writesExpr⟩ := child readExpr
    obtain ⟨_, heldIf, writesIf⟩ := child readIf
    obtain ⟨_, heldElse, writesElse⟩ := child readElse
    cases success
    exact .conditional type heldExpr writesExpr heldIf writesIf heldElse writesElse
  | statement s => cases supported

/-- Reading gives the tree that a graph writes, and nothing else, at any place. -/
theorem Node.read_eq_ok_iff {d : Json} {path : Path} {root : Node} :
    Node.read d path = .ok root ↔ d.Writes root := by
  refine ⟨?_, fun writes => writes.read path⟩
  induction d generalizing path root with
  | scalar d plain =>
    intro success
    rw [Node.read_scalar plain] at success
    cases success
  | obj fields children items =>
    intro success
    cases fields.typeCase with
    | untyped other =>
      rw [Node.read_untyped other] at success
      cases success
    | foreign tag type unsupported =>
      rw [Node.read_foreign type unsupported] at success
      cases success
      exact .unsupported type unsupported
    | node op type supported =>
      refine Json.writes_of_typed type supported ?_ ?_ success
      · exact fun name d held path node => children name d held
      · exact fun name list held d member path node => items name list held d member

end TickGraph
