import Mathlib.Data.List.Nodup
import TickGraph.Proofs.Lowering

namespace TickGraph

/-- The place that some steps lead to. -/
def Path.along (path : Path) (steps : List Step) : Path :=
  ⟨path.root, path.steps ++ steps⟩

/-- The operands of a node, each behind the step that leads to it. -/
def Node.operands : Node → List (Step × Node)
  | .number _ => []
  | .reference _ => []
  | .variadic _ a b others =>
    (.field .a, a) :: (.field .b, b) :: others.zipIdx.map fun entry => (.other entry.2, entry.1)
  | .unary _ v => [(.field .v, v)]
  | .comparison _ left right => [(.field .left, left), (.field .right, right)]
  | .conditional expr ifNode elseNode =>
    [(.field .expr, expr), (.field .ifNode, ifNode), (.field .elseNode, elseNode)]
  | .unsupported _ _ => []

/-- The node that some steps lead to. -/
def Node.at? : Node → List Step → Option Node
  | node, [] => some node
  | node, step :: rest => (node.operands.lookup step).bind fun operand => operand.at? rest

/-- A node with another operand in the place of one that it has. -/
def Node.setOperand : Node → Step → Node → Node
  | .variadic op _ b others, .field .a, new => .variadic op new b others
  | .variadic op a _ others, .field .b, new => .variadic op a new others
  | .variadic op a b others, .other i, new => .variadic op a b (others.set i new)
  | .unary op _, .field .v, new => .unary op new
  | .comparison op _ right, .field .left, new => .comparison op new right
  | .comparison op left _, .field .right, new => .comparison op left new
  | .conditional _ ifNode elseNode, .field .expr, new => .conditional new ifNode elseNode
  | .conditional expr _ elseNode, .field .ifNode, new => .conditional expr new elseNode
  | .conditional expr ifNode _, .field .elseNode, new => .conditional expr ifNode new
  | node, _, _ => node

/-- A tree with another one where some steps lead to. -/
def Node.replace : Node → List Step → Node → Node
  | _, [], new => new
  | node, step :: rest, new =>
    match node.operands.lookup step with
    | none => node
    | some operand => node.setOperand step (operand.replace rest new)

theorem Path.along_nil (path : Path) : path.along [] = path := by
  simp [Path.along]

theorem Path.along_cons (path : Path) (step : Step) (rest : List Step) :
    path.along (step :: rest) = (path.down step).along rest := by
  simp [Path.along, Path.down]

theorem Path.along_injective {path : Path} {steps others : List Step}
    (same : path.along steps = path.along others) : steps = others :=
  List.append_cancel_left (congrArg Path.steps same)

theorem Node.operands_children (node : Node) : node.operands.map Prod.snd = node.children := by
  cases node <;> simp [Node.operands, Node.children, List.map_map, Function.comp_def]

section Members

variable {step : Step} {node : Node}

theorem Node.mem_operands_variadic {op : VariadicOp} {a b : Node} {others : List Node} :
    (step, node) ∈ (Node.variadic op a b others).operands ↔
      (step = .field .a ∧ node = a) ∨ (step = .field .b ∧ node = b) ∨
        ∃ i, step = .other i ∧ others[i]? = some node := by
  have further : (step, node) ∈ (others.zipIdx.map fun entry => (Step.other entry.2, entry.1)) ↔
      ∃ i, step = .other i ∧ others[i]? = some node := by
    rw [List.mem_map]
    constructor
    · rintro ⟨⟨other, i⟩, inside, same⟩
      cases same
      exact ⟨i, rfl, List.mem_zipIdx_iff_getElem?.mp inside⟩
    · rintro ⟨i, rfl, present⟩
      exact ⟨(node, i), List.mem_zipIdx_iff_getElem?.mpr present, rfl⟩
  simp only [Node.operands, List.mem_cons, Prod.mk.injEq, further]

theorem Node.mem_operands_unary {op : UnaryOp} {v : Node} :
    (step, node) ∈ (Node.unary op v).operands ↔ step = .field .v ∧ node = v := by
  simp only [Node.operands, List.mem_singleton, Prod.mk.injEq]

theorem Node.mem_operands_comparison {op : ComparisonOp} {left right : Node} :
    (step, node) ∈ (Node.comparison op left right).operands ↔
      (step = .field .left ∧ node = left) ∨ (step = .field .right ∧ node = right) := by
  simp only [Node.operands, List.mem_cons, List.not_mem_nil, or_false, Prod.mk.injEq]

theorem Node.mem_operands_conditional {expr ifNode elseNode : Node} :
    (step, node) ∈ (Node.conditional expr ifNode elseNode).operands ↔
      (step = .field .expr ∧ node = expr) ∨ (step = .field .ifNode ∧ node = ifNode) ∨
        (step = .field .elseNode ∧ node = elseNode) := by
  simp only [Node.operands, List.mem_cons, List.not_mem_nil, or_false, Prod.mk.injEq]

end Members

/-- No two operands of a node are behind the same step. -/
theorem Node.nodup_operands (node : Node) : (node.operands.map Prod.fst).Nodup := by
  cases node with
  | variadic op a b others =>
    have numbers : (others.zipIdx.map fun entry => Step.other entry.2).Nodup := by
      have steps : (others.zipIdx.map fun entry => Step.other entry.2) =
          (List.range' 0 others.length).map Step.other := by
        rw [← List.zipIdx_map_snd, List.map_map]
        rfl
      rw [steps]
      exact (List.nodup_range' : (List.range' 0 others.length).Nodup).map
        fun _ _ same => Step.other.inj same
    simpa [Node.operands, List.map_map, Function.comp_def] using numbers
  | _ => simp [Node.operands]

/-- Induction over trees, whatever the nodes are. -/
theorem Node.child_induction {motive : Node → Prop}
    (each : ∀ node, (∀ child ∈ node.children, motive child) → motive node) (node : Node) :
    motive node := by
  induction node with
  | number x => exact each _ (by simp [Node.children])
  | reference tag => exact each _ (by simp [Node.children])
  | variadic op a b others iha ihb ihs =>
    exact each _ (by simpa [Node.children, iha, ihb] using ihs)
  | unary op v ih => exact each _ (by simpa [Node.children] using ih)
  | comparison op left right ihl ihr => exact each _ (by simp [Node.children, ihl, ihr])
  | conditional expr ifNode elseNode ihe ihi ihs =>
    exact each _ (by simp [Node.children, ihe, ihi, ihs])
  | unsupported tag raw => exact each _ (by simp [Node.children])

/-- Induction over trees, with one hypothesis for each operand. -/
theorem Node.operand_induction {motive : Node → Prop}
    (each : ∀ node, (∀ operand ∈ node.operands, motive operand.2) → motive node) (node : Node) :
    motive node := by
  induction node using Node.child_induction with
  | each node ih =>
    refine each node fun operand member => ih operand.2 ?_
    rw [← node.operands_children]
    exact List.mem_map_of_mem member

theorem Node.locatedFrom_eq (nodes : List Node) (i : Nat) (path : Path) :
    Node.locatedFrom nodes i path =
      (nodes.zipIdx i).flatMap fun entry => entry.1.located (path.other entry.2) := by
  induction nodes generalizing i with
  | nil => rfl
  | cons node rest ih => rw [Node.locatedFrom, ih, List.zipIdx_cons, List.flatMap_cons]

/-- A node comes first, then its operands one after the other, each one step further down. -/
theorem Node.located_eq (node : Node) (path : Path) :
    node.located path = (path, node) :: node.operands.flatMap fun operand =>
      operand.2.located (path.down operand.1) := by
  cases node <;>
    simp [Node.located, Node.operands, Node.locatedFrom_eq, List.flatMap_map, Path.field,
      Path.other]

theorem Node.lookup_operands {node operand : Node} {step : Step} :
    node.operands.lookup step = some operand ↔ (step, operand) ∈ node.operands := by
  have held {other : Node} (found : node.operands.lookup step = some other) :
      (step, other) ∈ node.operands := by
    obtain ⟨front, back, split, _⟩ := List.lookup_eq_some_iff.mp found
    rw [split]
    exact List.mem_append_right _ (List.mem_cons_self ..)
  refine ⟨held, fun member => ?_⟩
  cases found : node.operands.lookup step with
  | none => simpa using List.lookup_eq_none_iff.mp found _ member
  | some other =>
    have same := List.inj_on_of_nodup_map node.nodup_operands (held found) member rfl
    cases same
    rfl

theorem Node.at?_cons {node found : Node} {step : Step} {rest : List Step} :
    node.at? (step :: rest) = some found ↔
      ∃ operand, (step, operand) ∈ node.operands ∧ operand.at? rest = some found := by
  simp only [Node.at?, Option.bind_eq_some_iff, Node.lookup_operands]

/-- The walk over a tree comes to the nodes that steps lead to. -/
theorem Node.mem_located {node found : Node} {path at_ : Path} :
    (at_, found) ∈ node.located path ↔
      ∃ steps, node.at? steps = some found ∧ at_ = path.along steps := by
  induction node using Node.operand_induction generalizing path with
  | each node ih =>
    rw [Node.located_eq, List.mem_cons, List.mem_flatMap]
    constructor
    · rintro (here | ⟨⟨step, operand⟩, member, inside⟩)
      · cases here
        exact ⟨[], rfl, (Path.along_nil _).symm⟩
      · obtain ⟨rest, below, same⟩ := (ih _ member).mp inside
        refine ⟨step :: rest, Node.at?_cons.mpr ⟨operand, member, below⟩, ?_⟩
        rw [same, Path.along_cons]
    · rintro ⟨steps, there, same⟩
      cases steps with
      | nil =>
        cases there
        rw [same, path.along_nil]
        exact Or.inl rfl
      | cons step rest =>
        obtain ⟨operand, member, below⟩ := Node.at?_cons.mp there
        refine Or.inr ⟨_, member, (ih _ member).mpr ⟨rest, below, ?_⟩⟩
        rw [same, Path.along_cons]

/-- No two nodes of a tree have the same place. -/
theorem Node.nodup_located (node : Node) (path : Path) :
    ((node.located path).map Prod.fst).Nodup := by
  induction node using Node.operand_induction generalizing path with
  | each node ih =>
    have deeper {operand : Step × Node} {at_ : Path}
        (inside : at_ ∈ (operand.2.located (path.down operand.1)).map Prod.fst) :
        ∃ rest, at_ = path.along (operand.1 :: rest) := by
      obtain ⟨⟨_, found⟩, member, rfl⟩ := List.mem_map.mp inside
      obtain ⟨rest, _, same⟩ := Node.mem_located.mp member
      exact ⟨rest, by rw [same, Path.along_cons]⟩
    rw [Node.located_eq, List.map_cons, List.map_flatMap, List.nodup_cons]
    constructor
    · intro member
      obtain ⟨operand, _, inside⟩ := List.mem_flatMap.mp member
      obtain ⟨rest, same⟩ := deeper inside
      cases Path.along_injective (path.along_nil.trans same)
    · rw [List.nodup_flatMap]
      refine ⟨fun operand member => ih operand member _, ?_⟩
      have steps := List.pairwise_map.mp node.nodup_operands
      refine steps.imp ?_
      intro operand other differ at_ inside there
      obtain ⟨rest, same⟩ := deeper inside
      obtain ⟨last, again⟩ := deeper there
      exact differ (List.cons.inj (Path.along_injective (same.symm.trans again))).1

variable {H : Type}

end TickGraph
