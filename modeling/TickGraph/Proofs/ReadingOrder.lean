import Mathlib.Data.List.Forall2
import TickGraph.Proofs.PathAgreement

namespace TickGraph

/-- A reading that records the mappings it comes to, each with its place. -/
structure Visiting (α : Type) where
  visits : List (Path × Json)
  outcome : Except MalformedGraph α

namespace Visiting

variable {α β : Type}

def bind (run : Visiting α) (next : α → Visiting β) : Visiting β :=
  match run.outcome with
  | .error fault => ⟨run.visits, .error fault⟩
  | .ok a =>
    let rest := next a
    ⟨run.visits ++ rest.visits, rest.outcome⟩

instance : Monad Visiting where
  pure a := ⟨[], .ok a⟩
  bind := bind

@[simp] theorem ok_bind (visits : List (Path × Json)) (a : α) (next : α → Visiting β) :
    ((⟨visits, .ok a⟩ : Visiting α) >>= next) =
      ⟨visits ++ (next a).visits, (next a).outcome⟩ := rfl

theorem outcome_bind (run : Visiting α) (next : α → Visiting β) :
    (run >>= next).outcome = run.outcome >>= fun a => (next a).outcome := by
  obtain ⟨visits, outcome⟩ := run
  cases outcome <;> rfl

theorem pure_eq (a : α) : (pure a : Visiting α) = ⟨[], .ok a⟩ := rfl

end Visiting

/-- Records each mapping that it enters. -/
def Reader.visiting : Reader Visiting where
  enter path d := ⟨[(path, d)], .ok ()⟩
  reject fault := ⟨[], .error fault⟩

def Node.visit : Json → Path → Visiting Node :=
  Reader.visiting.node

@[simp] theorem Reader.visiting_node (d : Json) (path : Path) :
    Reader.visiting.node d path = Node.visit d path :=
  rfl

@[simp] theorem Reader.visiting_enter (path : Path) (d : Json) :
    Reader.visiting.enter path d = ⟨[(path, d)], .ok ()⟩ :=
  rfl

theorem Node.visit_typed {fields : Json.Fields} {op : Operator}
    (type : fields.lookup Json.typeKey = some (.str op.tag)) (path : Path) :
    Node.visit (.obj fields) path = (do
      Reader.visiting.enter path (.obj fields)
      Reader.visiting.operator op fields path (fun field => Reader.visiting.child field fields path)
        (Reader.visiting.others fields path)) := by
  unfold Node.visit Reader.node
  simp only [type, Operator.ofTag?_tag]

/-- A view of the runs of one reader that shows the runs of another one. -/
structure Reader.Shows {m n : Type → Type} [Monad m] [Monad n] (reader : Reader m) (other : Reader n)
    (view : ∀ {α : Type}, m α → n α) : Prop where
  pure {α : Type} (a : α) : view (pure a : m α) = pure a
  bind {α β : Type} (run : m α) (next : α → m β) :
    view (run >>= next) = view run >>= fun a => view (next a)
  enter (path : Path) (d : Json) : view (reader.enter path d) = other.enter path d
  reject {α : Type} (fault : MalformedGraph) :
    view (reader.reject fault : m α) = other.reject fault

namespace Reader.Shows

variable {m n : Type → Type} [Monad m] [Monad n] {reader : Reader m} {other : Reader n}
  {view : ∀ {α : Type}, m α → n α} (shows : reader.Shows other view)

include shows

theorem leaf {α : Type} (fields : Json.Fields) (field : Field) (path : Path)
    (read : Json → Except Violation α) :
    view (reader.leaf fields field path read) = other.leaf fields field path read := by
  unfold Reader.leaf
  cases fields.lookup field.key with
  | none => exact shows.reject _
  | some d =>
    dsimp only
    cases read d with
    | ok x => exact shows.pure x
    | error violation => exact shows.reject _

theorem operator (op : Operator) (fields : Json.Fields) (path : Path)
    {child : Field → m Node} {others : m (List Node)} :
    view (reader.operator op fields path child others) =
      other.operator op fields path (fun field => view (child field)) (view others) := by
  cases op <;> simp only [Reader.operator, shows.bind, shows.pure, shows.leaf]

theorem items {items : List Json}
    (each : ∀ d ∈ items, ∀ path, view (reader.node d path) = other.node d path) (i : Nat)
    (path : Path) : view (reader.items items i path) = other.items items i path := by
  induction items generalizing i with
  | nil => exact shows.pure []
  | cons d rest ih =>
    obtain ⟨first, further⟩ := List.forall_mem_cons.mp each
    simp only [Reader.items, shows.bind, shows.pure, first, ih further]

/-- The view shows the other reading of every value. -/
theorem node (d : Json) (path : Path) : view (reader.node d path) = other.node d path := by
  induction d generalizing path with
  | scalar d plain =>
    cases d with
    | obj fields => exact absurd rfl (plain fields)
    | _ => exact shows.reject _
  | obj fields children lists =>
    have child (field : Field) :
        view (reader.child field fields path) = other.child field fields path := by
      rw [Reader.child_eq, Reader.child_eq]
      cases held : fields.lookup field.key with
      | none => exact shows.reject _
      | some d => exact children _ d held _
    have others : view (reader.others fields path) = other.others fields path := by
      rw [Reader.others_eq, Reader.others_eq]
      cases held : fields.lookup Field.others.key with
      | none => exact shows.reject _
      | some d =>
        cases d with
        | arr list => exact shows.items (lists _ list held) 0 path
        | _ => exact shows.reject _
    unfold Reader.node
    rw [shows.bind, shows.enter]
    congr 1
    funext _
    cases fields.lookup Json.typeKey with
    | none => exact shows.reject _
    | some content =>
      cases content with
      | str tag =>
        dsimp only
        cases Operator.ofTag? tag with
        | none => exact shows.pure _
        | some op => simp only [shows.operator, child, others]
      | _ => exact shows.reject _

end Reader.Shows

theorem Reader.visiting_shows_plain : Reader.visiting.Shows Reader.plain Visiting.outcome where
  pure _ := rfl
  bind := Visiting.outcome_bind
  enter _ _ := rfl
  reject _ := rfl

/-- Without the record it is the same reading, for whatever it is given. -/
theorem Node.outcome_visit (d : Json) (path : Path) :
    (Node.visit d path).outcome = Node.read d path :=
  Reader.visiting_shows_plain.node d path

/-- The values that can be reached through operands, with the steps that lead to them. -/
inductive Json.Reaches : Json → List Step → Json → Prop
  | here {d : Json} : Reaches d [] d
  | down {d child found : Json} {step : Step} {rest : List Step} (operand : d.Operand step child)
      (below : Reaches child rest found) : Reaches d (step :: rest) found

theorem Json.Reaches.at? {d found : Json} {steps : List Step} (reach : d.Reaches steps found) :
    d.at? steps = some found := by
  induction reach with
  | here => rfl
  | down operand below ih =>
    rw [Json.at?, operand.step?]
    exact ih

section Foreign

variable {fields : Json.Fields} {found : Json} {tag : Text}
  (type : fields.lookup Json.typeKey = some (.str tag))
  (unsupported : ∀ op : Operator, op.tag = tag → op.supported = false)

include type unsupported

theorem Json.not_operand_of_foreign {step : Step} : ¬ (Json.obj fields).Operand step found := by
  have nothing {op : Operator} (typed : fields.lookup Json.typeKey = some (.str op.tag)) :
      op.category.required = [] := by
    refine Operator.required_of_unsupported (unsupported op ?_)
    cases typed.symm.trans type
    rfl
  intro operand
  cases operand with
  | child typed listed held =>
    have required := Category.mem_required_iff.mpr (Or.inl listed)
    rw [nothing typed] at required
    cases required
  | other typed listed held item =>
    have required := Category.mem_required_iff.mpr (Or.inr listed)
    rw [nothing typed] at required
    cases required

/-- A mapping whose type has no evaluation reaches nothing inside it. -/
theorem Json.Reaches.of_foreign {steps : List Step} (reach : (Json.obj fields).Reaches steps found) :
    steps = [] := by
  cases reach with
  | here => rfl
  | down operand below => exact absurd operand (Json.not_operand_of_foreign type unsupported)

end Foreign

section Operands

variable {d child : Json} {root node : Node} {step : Step}

/-- An operand is in a field that the type lists, or in the list of further ones if the type has one. -/
theorem Json.Operand.of_typed {fields : Json.Fields} {op : Operator}
    (type : fields.lookup Json.typeKey = some (.str op.tag))
    (operand : (Json.obj fields).Operand step child) :
    (∃ field ∈ op.category.fields, step = .field field) ∨
      op.category.extra? = some .others ∧ ∃ items i,
        fields.lookup Field.others.key = some (.arr items) ∧ items[i]? = some child ∧
          step = .other i := by
  cases operand with
  | @child _ _ field _ typed listed held =>
    cases Operator.eq_of_typed type typed
    exact Or.inl ⟨field, listed, rfl⟩
  | @other _ _ items i _ typed listed held item =>
    cases Operator.eq_of_typed type typed
    exact Or.inr ⟨listed, items, i, held, item, rfl⟩

/-- A node has an operand wherever what writes it has one. -/
theorem Json.Writes.exists_mem_operands (writes : d.Writes root) (operand : d.Operand step child) :
    ∃ node, (step, node) ∈ root.operands := by
  cases writes with
  | number type =>
    obtain ⟨field, listed, -⟩ | ⟨listed, -⟩ := operand.of_typed type
    · cases listed
    · cases listed
  | reference type =>
    obtain ⟨field, listed, -⟩ | ⟨listed, -⟩ := operand.of_typed type
    · cases listed
    · cases listed
  | @variadic _ op _ _ _ _ _ others type _ _ _ _ list length =>
    obtain ⟨field, listed, rfl⟩ | ⟨-, items, i, held, item, rfl⟩ := operand.of_typed type
    · have either : field = .a ∨ field = .b := by
        simpa [Operator.category, op.fields_category] using listed
      rcases either with rfl | rfl
      · exact ⟨_, Node.mem_operands_variadic.mpr (Or.inl ⟨rfl, rfl⟩)⟩
      · exact ⟨_, Node.mem_operands_variadic.mpr (Or.inr (Or.inl ⟨rfl, rfl⟩))⟩
    · cases list.symm.trans held
      obtain ⟨bound, _⟩ := List.getElem?_eq_some_iff.mp item
      have present := List.getElem?_eq_getElem (length ▸ bound : i < others.length)
      exact ⟨_, Node.mem_operands_variadic.mpr (Or.inr (Or.inr ⟨i, rfl, present⟩))⟩
  | unary type =>
    obtain ⟨field, listed, rfl⟩ | ⟨listed, -⟩ := operand.of_typed type
    · have only : field = .v := by simpa [Operator.category, Category.fields] using listed
      exact ⟨_, Node.mem_operands_unary.mpr ⟨congrArg Step.field only, rfl⟩⟩
    · cases listed
  | comparison type =>
    obtain ⟨field, listed, rfl⟩ | ⟨listed, -⟩ := operand.of_typed type
    · have either : field = .left ∨ field = .right := by
        simpa [Operator.category, Category.fields] using listed
      rcases either with rfl | rfl
      · exact ⟨_, Node.mem_operands_comparison.mpr (Or.inl ⟨rfl, rfl⟩)⟩
      · exact ⟨_, Node.mem_operands_comparison.mpr (Or.inr ⟨rfl, rfl⟩)⟩
    · cases listed
  | conditional type =>
    obtain ⟨field, listed, rfl⟩ | ⟨listed, -⟩ := operand.of_typed type
    · have some : field = .expr ∨ field = .ifNode ∨ field = .elseNode := by
        simpa [Operator.category, Category.fields] using listed
      rcases some with rfl | rfl | rfl
      · exact ⟨_, Node.mem_operands_conditional.mpr (Or.inl ⟨rfl, rfl⟩)⟩
      · exact ⟨_, Node.mem_operands_conditional.mpr (Or.inr (Or.inl ⟨rfl, rfl⟩))⟩
      · exact ⟨_, Node.mem_operands_conditional.mpr (Or.inr (Or.inr ⟨rfl, rfl⟩))⟩
    · cases listed
  | unsupported type foreign => exact absurd operand (Json.not_operand_of_foreign type foreign)

theorem Json.Writes.mem_of_operand (writes : d.Writes root) (operand : d.Operand step child) :
    ∃ node, (step, node) ∈ root.operands ∧ child.Writes node := by
  obtain ⟨node, member⟩ := writes.exists_mem_operands operand
  obtain ⟨other, again, written⟩ := writes.operand_of_mem member
  cases operand.step?.symm.trans again.step?
  exact ⟨node, member, written⟩

end Operands

section Reach

variable {d found : Json} {root node : Node} {steps : List Step}

/-- Steps lead to a node of the tree exactly if they lead through operands to what writes it. -/
theorem Json.Writes.reaches (writes : d.Writes root) (present : root.at? steps = some node) :
    ∃ found, d.Reaches steps found ∧ found.Writes node := by
  induction steps generalizing d root with
  | nil =>
    cases present
    exact ⟨d, .here, writes⟩
  | cons step rest ih =>
    obtain ⟨operand, member, below⟩ := Node.at?_cons.mp present
    obtain ⟨child, there, written⟩ := writes.operand_of_mem member
    obtain ⟨found, reach, same⟩ := ih written below
    exact ⟨found, .down there reach, same⟩

theorem Json.Writes.of_reaches (writes : d.Writes root) (reach : d.Reaches steps found) :
    ∃ node, root.at? steps = some node ∧ found.Writes node := by
  induction reach generalizing root with
  | here => exact ⟨root, rfl, writes⟩
  | down operand below ih =>
    obtain ⟨child, member, written⟩ := writes.mem_of_operand operand
    obtain ⟨node, present, same⟩ := ih written
    exact ⟨node, Node.at?_cons.mpr ⟨child, member, present⟩, same⟩

end Reach

/-- A mapping that a reading came to, and the node that the tree has there. -/
structure Visited (d : Json) (path : Path) (visit : Path × Json) (place : Path × Node) : Prop where
  same : visit.1 = place.1
  writes : visit.2.Writes place.2
  reach : ∃ steps, visit.1 = path.along steps ∧ d.Reaches steps visit.2

section Visits

variable {d : Json} {root : Node} {path : Path}

theorem Visited.first (writes : d.Writes root) (path : Path) : Visited d path (path, d) (path, root) :=
  ⟨rfl, writes, [], path.along_nil.symm, .here⟩

/-- What an operand comes to is reached from above through the operand. -/
theorem Visited.above {child : Json} {step : Step} {visits : List (Path × Json)}
    {places : List (Path × Node)} (operand : d.Operand step child)
    (visited : List.Forall₂ (Visited child (path.down step)) visits places) :
    List.Forall₂ (Visited d path) visits places := by
  refine visited.imp ?_
  rintro visit place ⟨same, writes, steps, along, reach⟩
  exact ⟨same, writes, step :: steps, along.trans (path.along_cons step steps).symm,
    .down operand reach⟩

/-- A reading of the tree that a mapping writes comes to one mapping for each node, in the order of
the tree. -/
def Json.VisitedInOrder (d : Json) (root : Node) : Prop :=
  ∀ path, ∃ visits, Node.visit d path = ⟨visits, .ok root⟩ ∧
    List.Forall₂ (Visited d path) visits (root.located path)

/-- An operand that is read in order is read in order as a field of its mapping. -/
theorem Json.VisitedInOrder.operand {fields : Json.Fields} {op : Operator} {field : Field} {child : Json}
    {node : Node} (inOrder : child.VisitedInOrder node)
    (type : fields.lookup Json.typeKey = some (.str op.tag)) (listed : field ∈ op.category.fields)
    (held : fields.lookup field.key = some child) (path : Path) :
    ∃ visits, Reader.visiting.child field fields path = ⟨visits, .ok node⟩ ∧
      List.Forall₂ (Visited (.obj fields) path) visits (node.located (path.down (.field field))) := by
  obtain ⟨visits, run, visited⟩ := inOrder (path.down (.field field))
  refine ⟨visits, ?_, Visited.above (.child type listed held) visited⟩
  rw [Reader.child_eq, held]
  exact run

theorem Reader.items_in_order {items : List Json} {nodes : List Node} {i : Nat}
    (length : items.length = nodes.length)
    (each : ∀ (k : Nat) (child : Json) (node : Node), items[k]? = some child →
      nodes[k]? = some node → d.Operand (.other (i + k)) child ∧ child.VisitedInOrder node) :
    ∃ visits, Reader.visiting.items items i path = ⟨visits, .ok nodes⟩ ∧
      List.Forall₂ (Visited d path) visits (Node.locatedFrom nodes i path) := by
  induction items generalizing nodes i with
  | nil =>
    rw [List.eq_nil_of_length_eq_zero length.symm]
    exact ⟨[], rfl, .nil⟩
  | cons child rest ih =>
    cases nodes with
    | nil => cases length
    | cons node others =>
      obtain ⟨operand, inOrder⟩ := each 0 child node rfl rfl
      obtain ⟨first, run, visited⟩ := inOrder (path.other i)
      obtain ⟨further, later, among⟩ := @ih others (i + 1) (Nat.succ.inj length)
        fun k d node item there => by
          rw [Nat.add_assoc, Nat.add_comm 1 k]
          exact each (k + 1) d node item there
      refine ⟨first ++ further, ?_, List.rel_append (Visited.above operand visited) among⟩
      simp [Reader.items, run, later, Visiting.pure_eq]

theorem Reader.leaf_of_held {m : Type → Type} [Monad m] (reader : Reader m) {α : Type}
    {fields : Json.Fields} {field : Field} {content : Json} {read : Json → Except Violation α} {x : α}
    (held : fields.lookup field.key = some content) (value : read content = .ok x) (path : Path) :
    reader.leaf fields field path read = pure x := by
  simp only [Reader.leaf, held, value]

theorem Json.Writes.visitedInOrder (writes : d.Writes root) : d.VisitedInOrder root := by
  induction writes with
  | @number fields _ _ type held value =>
    intro path
    refine ⟨[(path, .obj fields)], ?_, .cons (.first (.number type held value) path) .nil⟩
    simp only [Node.visit_typed type, Reader.operator, Reader.leaf_of_held _ held value]
    rfl
  | @reference fields _ _ type held tag =>
    intro path
    refine ⟨[(path, .obj fields)], ?_, .cons (.first (.reference type held tag) path) .nil⟩
    simp only [Node.visit_typed type, Reader.operator, Reader.leaf_of_held _ held tag]
    rfl
  | @variadic fields op _ _ _ _ _ _ type heldA writesA heldB writesB list length each ihA ihB ihEach =>
    intro path
    have written := Json.Writes.variadic type heldA writesA heldB writesB list length each
    obtain ⟨visitsA, runA, amongA⟩ :=
      ihA.operand type (by simp [Operator.category, op.fields_category]) heldA path
    obtain ⟨visitsB, runB, amongB⟩ :=
      ihB.operand type (by simp [Operator.category, op.fields_category]) heldB path
    obtain ⟨further, run, among⟩ := @Reader.items_in_order _ path _ _ 0 length
      fun k child node item present => by
        rw [Nat.zero_add]
        exact ⟨.other type op.extra?_category list item, ihEach k child node item present⟩
    refine ⟨(path, .obj fields) :: (visitsA ++ (visitsB ++ further)), ?_,
      .cons (.first written path) (List.rel_append amongA (List.rel_append amongB among))⟩
    simp [Node.visit_typed type, Reader.operator, Reader.others_eq, list, runA, runB, run,
      Visiting.pure_eq]
  | @unary fields op _ _ type held writes ih =>
    intro path
    obtain ⟨visits, run, among⟩ := ih.operand type (List.mem_cons_self ..) held path
    refine ⟨(path, .obj fields) :: visits, ?_, .cons (.first (.unary type held writes) path) among⟩
    simp [Node.visit_typed type, Reader.operator, run, Visiting.pure_eq]
  | @comparison fields op _ _ _ _ type heldLeft writesLeft heldRight writesRight ihLeft ihRight =>
    intro path
    have written := Json.Writes.comparison type heldLeft writesLeft heldRight writesRight
    obtain ⟨visitsLeft, runLeft, amongLeft⟩ :=
      ihLeft.operand type (by simp [Operator.category, Category.fields]) heldLeft path
    obtain ⟨visitsRight, runRight, amongRight⟩ :=
      ihRight.operand type (by simp [Operator.category, Category.fields]) heldRight path
    refine ⟨(path, .obj fields) :: (visitsLeft ++ visitsRight), ?_,
      .cons (.first written path) (List.rel_append amongLeft amongRight)⟩
    simp [Node.visit_typed type, Reader.operator, runLeft, runRight, Visiting.pure_eq]
  | @conditional fields _ _ _ _ _ _ type heldExpr writesExpr heldIf writesIf heldElse writesElse
      ihExpr ihIf ihElse =>
    intro path
    have written :=
      Json.Writes.conditional type heldExpr writesExpr heldIf writesIf heldElse writesElse
    obtain ⟨visitsExpr, runExpr, amongExpr⟩ :=
      ihExpr.operand type (by simp [Operator.category, Category.fields]) heldExpr path
    obtain ⟨visitsIf, runIf, amongIf⟩ :=
      ihIf.operand type (by simp [Operator.category, Category.fields]) heldIf path
    obtain ⟨visitsElse, runElse, amongElse⟩ :=
      ihElse.operand type (by simp [Operator.category, Category.fields]) heldElse path
    refine ⟨(path, .obj fields) :: (visitsExpr ++ (visitsIf ++ visitsElse)), ?_,
      .cons (.first written path) (List.rel_append amongExpr (List.rel_append amongIf amongElse))⟩
    simp [Node.visit_typed type, Reader.operator, runExpr, runIf, runElse, Visiting.pure_eq]
  | @unsupported fields tag type foreign =>
    intro path
    refine ⟨[(path, .obj fields)], ?_, .cons (.first (.unsupported type foreign) path) .nil⟩
    unfold Node.visit Reader.node
    simp only [type]
    cases named : Operator.ofTag? tag with
    | none => rfl
    | some op =>
      -- Of the operators only statements have no evaluation, and they are read like unknown types.
      have statement := foreign op (Operator.tag_of_ofTag? named)
      cases op with
      | statement s =>
        cases Operator.tag_of_ofTag? named
        rfl
      | variadic op => cases op <;> cases statement
      | _ => cases statement

end Visits

end TickGraph
