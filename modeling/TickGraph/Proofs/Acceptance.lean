import TickGraph.Proofs.Lowering
import TickGraph.Proofs.WrittenTree

namespace TickGraph

/-- The operator that a node applies. -/
def Node.operator? : Node → Option Operator
  | .number _ => some .literal
  | .reference _ => some .reference
  | .variadic op _ _ _ => some (.variadic op)
  | .unary op _ => some (.unary op)
  | .comparison op _ _ => some (.comparison op)
  | .conditional _ _ _ => some .conditional
  | .unsupported _ _ => none

/-- A node is sound if it has an operator with an evaluation, and the operands that this operator
takes, or else keeps an object whose type names no such operator. -/
inductive Node.Sound : Node → Prop
  | applied {node : Node} {op : Operator} (operator : node.operator? = some op)
      (supported : op.supported = true)
      (enough : op.category.fields.length ≤ node.children.length)
      (fixed : op.category.extra? ≠ some .others →
        node.children.length = op.category.fields.length) : Sound node
  | kept {tag : Text} {raw : Json.Fields} (type : raw.lookup Json.typeKey = some (.str tag))
      (unsupported : ∀ op : Operator, op.tag = tag → op.supported = false) :
      Sound (.unsupported tag raw)

theorem Node.sound_of_mem_children {node : Node} (root : node.Sound)
    (each : ∀ child ∈ node.children, ∀ below ∈ child.preorder, below.Sound) :
    ∀ below ∈ node.preorder, below.Sound := by
  intro below member
  rw [Node.preorder_eq_children] at member
  rcases List.mem_cons.mp member with same | inside
  · rw [same]
    exact root
  · obtain ⟨child, among, inside⟩ := List.mem_flatMap.mp inside
    exact each child among below inside

/-- A tree that a graph writes is sound everywhere. -/
theorem Json.Writes.sound {d : Json} {root : Node} (writes : d.Writes root) :
    ∀ node ∈ root.preorder, node.Sound := by
  induction writes with
  | number type held content =>
    refine Node.sound_of_mem_children (.applied rfl rfl (Nat.le_refl _) fun _ => rfl) ?_
    exact List.forall_mem_nil _
  | reference type held content =>
    refine Node.sound_of_mem_children (.applied rfl rfl (Nat.le_refl _) fun _ => rfl) ?_
    exact List.forall_mem_nil _
  | @variadic _ op _ _ _ _ _ others type _ _ _ _ list length _ ihA ihB ihEach =>
    refine Node.sound_of_mem_children ?_ ?_
    · refine .applied rfl (by cases op <;> rfl) ?_ fun fixed => ?_
      · have two : (Operator.variadic op).category.fields.length = 2 := by cases op <;> rfl
        rw [two]
        exact Nat.le_add_left 2 others.length
      · exact absurd (by cases op <;> rfl) fixed
    · simp only [Node.children, List.forall_mem_cons]
      refine ⟨ihA, ihB, ?_⟩
      intro other member
      obtain ⟨i, present⟩ := List.getElem?_of_mem member
      obtain ⟨bound, _⟩ := List.getElem?_eq_some_iff.mp present
      exact ihEach i _ other (List.getElem?_eq_getElem (length ▸ bound)) present
  | unary type _ _ ih =>
    refine Node.sound_of_mem_children (.applied rfl rfl (Nat.le_refl _) fun _ => rfl) ?_
    simpa only [Node.children, List.forall_mem_singleton] using ih
  | comparison type _ _ _ _ ihLeft ihRight =>
    refine Node.sound_of_mem_children (.applied rfl rfl (Nat.le_refl _) fun _ => rfl) ?_
    simp only [Node.children, List.forall_mem_cons]
    exact ⟨ihLeft, ihRight, List.forall_mem_nil _⟩
  | conditional type _ _ _ _ _ _ ihExpr ihIf ihElse =>
    refine Node.sound_of_mem_children (.applied rfl rfl (Nat.le_refl _) fun _ => rfl) ?_
    simp only [Node.children, List.forall_mem_cons]
    exact ⟨ihExpr, ihIf, ihElse, List.forall_mem_nil _⟩
  | unsupported type foreign =>
    exact Node.sound_of_mem_children (.kept type foreign) (List.forall_mem_nil _)

/-- Once a graph is read, only a strict configuration can still refuse it. -/
theorem compile_of_root {H : Type} {source : Source} {root : Node} (config : Config)
    (world : World H) (read : source.root = .ok root) :
    (∃ expression, (compile config world source).outcome = .ok expression ∧
      expression.root = root) ∨
    config.strict = true ∧
      ∃ error, (compile config world source).outcome = .error (.unsupported error) := by
  cases walk : (forM (root.located Path.graph) (Code.visit config world)).outcome with
  | ok done =>
    have admitted : config.Admits root :=
      (config.admits_iff_visits world root Path.graph).mpr (Traced.outcome_of_forM walk)
    rw [compile_of_admits read admitted]
    exact Or.inl ⟨_, rfl, rfl⟩
  | error error =>
    refine Or.inr ⟨?_, error, by rw [compile_of_walk_error read walk]⟩
    by_contra lenient
    have admitted : config.Admits root := fun strict => absurd strict lenient
    rw [Traced.forM_of_ok ((config.admits_iff_visits world root Path.graph).mp admitted)] at walk
    cases walk

/-- Reading succeeds exactly on the graphs that are well formed, and else it fails with a report. The
nodes of a tree that was read are all sound, so compiling it does not fail, but for the error by which a
strict configuration refuses the nodes without an evaluation. -/
theorem Node.read_accepts_grammar (d : Json) (path : Path) :
    ((∃ root, Node.read d path = .ok root) ↔ d.WellFormed) ∧
    ((∃ fault, Node.read d path = .error fault) ↔ ¬ d.WellFormed) ∧
    ∀ root, Node.read d path = .ok root →
      (∀ node ∈ root.preorder, node.Sound) ∧
      ∀ (H : Type) (config : Config) (world : World H),
        (∃ expression, (compile config world (.wire d)).outcome = .ok expression ∧
          expression.root = root) ∨
        config.strict = true ∧
          ∃ error, (compile config world (.wire d)).outcome = .error (.unsupported error) := by
  refine ⟨?_, ?_, ?_⟩
  · rw [Json.wellFormed_iff]
    cases Node.read_reports d with
    | accepted root result clean => exact ⟨fun _ => clean, fun _ => ⟨root, result path⟩⟩
    | refused fault result found first =>
      constructor
      · rintro ⟨root, success⟩
        cases (result path).symm.trans success
      · exact fun clean => absurd found (clean fault)
  · rw [Json.wellFormed_iff]
    cases Node.read_reports d with
    | accepted root result clean =>
      constructor
      · rintro ⟨fault, failure⟩
        cases (result path).symm.trans failure
      · exact fun faulty => absurd clean faulty
    | refused fault result found first =>
      exact ⟨fun _ clean => clean fault found, fun _ => ⟨_, result path⟩⟩
  · intro root success
    have writes := Node.read_eq_ok_iff.mp success
    exact ⟨writes.sound, fun H config world => compile_of_root config world (writes.read _)⟩

/-- A tag in the wrong case may have anything beside it; a tag may be written as a double. -/
theorem Node.read_accepts_grammar_wrong_case :
    let foreign : Json.Fields := [("type", .str "ADD"), ("a", .null)]
    let reference : Json := .obj [("tag", .float 3), ("type", .str "value")]
    let d : Json := .obj [("type", .str "and"), ("a", .obj foreign), ("b", reference),
      ("others", .arr [reference])]
    let root : Node := .variadic .and (.unsupported "ADD" foreign) (.reference 3) [.reference 3]
    d.WellFormed ∧ Node.read d Path.graph = .ok root ∧
      (∀ node ∈ root.preorder, node.Sound) ∧
      ∃ expression, (compile Config.standard (World.ofEntries []) (.wire d)).outcome =
        .ok expression ∧ expression.root = root := by
  intro foreign reference d root
  have success : Node.read d Path.graph = .ok root := rfl
  obtain ⟨accepts, _, trees⟩ := Node.read_accepts_grammar d Path.graph
  obtain ⟨sound, compiles⟩ := trees root success
  refine ⟨accepts.mp ⟨root, success⟩, success, sound, ?_⟩
  rcases compiles _ Config.standard (World.ofEntries []) with compiled | ⟨strict, _⟩
  · exact compiled
  · cases strict

end TickGraph
