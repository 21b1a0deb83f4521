import TickGraph.Proofs.Diagnostics
import TickGraph.Proofs.FirstFault
import TickGraph.Proofs.Places
import TickGraph.Proofs.WrittenTree

namespace TickGraph

/-- A value with another one a step further down. -/
def Json.setStep : Json → Step → Json → Json
  | .obj fields, .field f, new => .obj (Json.Fields.put f.key new fields)
  | .obj fields, .other i, new =>
    match fields.lookup Field.others.key with
    | some (.arr items) => .obj (Json.Fields.put Field.others.key (.arr (items.set i new)) fields)
    | _ => .obj fields
  | d, _, _ => d

/-- A value with another one where some steps lead to. -/
def Json.replace : Json → List Step → Json → Json
  | _, [], new => new
  | d, step :: rest, new =>
    match d.step? step with
    | none => d
    | some child => d.setStep step (child.replace rest new)

section Put

variable {fields : Json.Fields} {f : Field} {new : Json} {path : Path}

end Put

theorem VariadicOp.fields_category (op : VariadicOp) : op.category.fields = [.a, .b] := by
  cases op <;> rfl

theorem VariadicOp.extra?_category (op : VariadicOp) : op.category.extra? = some .others := by
  cases op <;> rfl

/-- The operands of a node are written by the operands of what writes the node. -/
theorem Json.Writes.operand_of_mem {d : Json} {root node : Node} {step : Step} (writes : d.Writes root)
    (member : (step, node) ∈ root.operands) : ∃ child, d.Operand step child ∧ child.Writes node := by
  cases writes with
  | number => cases member
  | reference => cases member
  | unsupported => cases member
  | @variadic _ op _ _ _ _ _ _ type heldA writesA heldB writesB list length each =>
    have fields := op.fields_category
    obtain ⟨rfl, rfl⟩ | ⟨rfl, rfl⟩ | ⟨i, rfl, present⟩ := Node.mem_operands_variadic.mp member
    · exact ⟨_, .child type (by simp [Operator.category, fields]) heldA, writesA⟩
    · exact ⟨_, .child type (by simp [Operator.category, fields]) heldB, writesB⟩
    · obtain ⟨bound, _⟩ := List.getElem?_eq_some_iff.mp present
      have item := List.getElem?_eq_getElem (length ▸ bound)
      exact ⟨_, .other type op.extra?_category list item, each i _ node item present⟩
  | unary type held writes =>
    obtain ⟨rfl, rfl⟩ := Node.mem_operands_unary.mp member
    exact ⟨_, .child type (List.mem_cons_self ..) held, writes⟩
  | comparison type heldLeft writesLeft heldRight writesRight =>
    obtain ⟨rfl, rfl⟩ | ⟨rfl, rfl⟩ := Node.mem_operands_comparison.mp member
    · exact ⟨_, .child type (by simp [Operator.category, Category.fields]) heldLeft, writesLeft⟩
    · exact ⟨_, .child type (by simp [Operator.category, Category.fields]) heldRight, writesRight⟩
  | conditional type heldExpr writesExpr heldIf writesIf heldElse writesElse =>
    obtain ⟨rfl, rfl⟩ | ⟨rfl, rfl⟩ | ⟨rfl, rfl⟩ := Node.mem_operands_conditional.mp member
    · exact ⟨_, .child type (by simp [Operator.category, Category.fields]) heldExpr, writesExpr⟩
    · exact ⟨_, .child type (by simp [Operator.category, Category.fields]) heldIf, writesIf⟩
    · exact ⟨_, .child type (by simp [Operator.category, Category.fields]) heldElse, writesElse⟩

section Set

variable {fields : Json.Fields} {path : Path} (new : Json)

end Set

/-- What writes a node is reached in the graph by the steps that lead to the node in the tree. -/
theorem Json.Writes.at? {d : Json} {root node : Node} {steps : List Step} (writes : d.Writes root)
    (present : root.at? steps = some node) :
    ∃ value, d.at? steps = some value ∧ value.Writes node := by
  induction steps generalizing d root with
  | nil =>
    cases present
    exact ⟨d, rfl, writes⟩
  | cons step rest ih =>
    obtain ⟨operand, member, below⟩ := Node.at?_cons.mp present
    obtain ⟨child, there, written⟩ := writes.operand_of_mem member
    obtain ⟨value, found, same⟩ := ih written below
    refine ⟨value, ?_, same⟩
    simp only [Json.at?, there.step?, Option.bind_some, found]

theorem Json.Writes.object {d : Json} {node : Node} (writes : d.Writes node) :
    ∃ fields, d = .obj fields := by
  cases writes <;> exact ⟨_, rfl⟩

section Reports

variable {H : Type} {config : Config} {world : World H}

variable {d : Json} {root : Node} {path : Path}

end Reports

end TickGraph
