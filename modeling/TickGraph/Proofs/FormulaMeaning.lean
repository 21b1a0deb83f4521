import TickGraph.Proofs.CallMeaning
import TickGraph.Proofs.FormulaText

namespace TickGraph

theorem Node.meanings_bares {leaf : Int → Float} {nodes : List Node}
    (each : ∀ node ∈ nodes, node.bare.meaning leaf = node.meaning leaf) :
    Node.meanings leaf (Node.bares nodes) = Node.meanings leaf nodes := by
  rw [Node.meanings_eq_map, Node.meanings_eq_map, Node.bares_eq_map, List.map_map]
  exact List.map_congr_left each

theorem Node.meaning_bare (leaf : Int → Float) (node : Node) :
    node.bare.meaning leaf = node.meaning leaf := by
  induction node with
  | number x => rfl
  | reference tag => rfl
  | variadic op a b others iha ihb ihs =>
    simp only [Node.bare, Node.meaning, iha, ihb, Node.meanings_bares ihs]
  | unary op v ih => simp only [Node.bare, Node.meaning, ih]
  | comparison op left right ihl ihr => simp only [Node.bare, Node.meaning, ihl, ihr]
  | conditional expr ifNode elseNode ihe ihi ihs =>
    simp only [Node.bare, Node.meaning, ihe, ihi, ihs]
  | unsupported tag raw => rfl

section Compile

variable {H : Type} {config : Config} {world : World H}

theorem Code.ofNodes_bares {nodes : List Node}
    (each : ∀ node ∈ nodes, ∀ path,
      Code.ofNode config world node.bare path = Code.ofNode config world node path)
    (i : Nat) (path : Path) :
    Code.ofNodes config world (Node.bares nodes) i path = Code.ofNodes config world nodes i path := by
  induction nodes generalizing i with
  | nil => rfl
  | cons node rest ih =>
    obtain ⟨first, others⟩ := List.forall_mem_cons.mp each
    simp only [Node.bares, Code.ofNodes, first, ih others]

/-- Compiling looks at no field of an unsupported node. -/
theorem Code.ofNode_bare (node : Node) (path : Path) :
    Code.ofNode config world node.bare path = Code.ofNode config world node path := by
  induction node generalizing path with
  | number x => rfl
  | reference tag => rfl
  | variadic op a b others iha ihb ihs =>
    simp only [Node.bare, Code.ofNode, iha, ihb, Code.ofNodes_bares ihs]
  | unary op v ih => simp only [Node.bare, Code.ofNode, ih]
  | comparison op left right ihl ihr => simp only [Node.bare, Code.ofNode, ihl, ihr]
  | conditional expr ifNode elseNode ihe ihi ihs =>
    simp only [Node.bare, Code.ofNode, ihe, ihi, ihs]
  | unsupported tag raw => rfl

/-- Two sources with trees that are alike compile to the same code, or fail in the same way. -/
theorem compile_call_of_bare {source other : Source} {left right : Node}
    (read : source.root = .ok left) (readOther : other.root = .ok right)
    (bare : left.bare = right.bare) (now : World H) :
    (compile config world source).outcome.map (Compiled.call · now) =
      (compile config world other).outcome.map (Compiled.call · now) := by
  have code :
      Code.ofNode config world left Path.graph = Code.ofNode config world right Path.graph := by
    rw [← Code.ofNode_bare left, bare, Code.ofNode_bare]
  rw [compile_of_read read, compile_of_read readOther, code]
  obtain ⟨events, outcome⟩ := Code.ofNode config world right Path.graph
  cases outcome <;> rfl

end Compile

/-- A double is equal to itself unless it is NaN. -/
theorem Double.beq_self {x : Float} (number : x.isNaN = false) : (x == x) = true := by
  change x.toModel.unpack.beq x.toModel.unpack = true
  change x.toModel.unpack.isNaN = false at number
  cases unpacked : x.toModel.unpack with
  | notANumber =>
    rw [unpacked] at number
    cases number
  | infinity sign => cases sign <;> rfl
  | zero sign => cases sign <;> rfl
  | finite sign m e valid =>
    cases sign <;> simp [Float.Model.UnpackedFloat.beq, Float.Model.UnpackedFloat.compare]

theorem Node.sames_bares {lefts : List Node}
    (each : ∀ left ∈ lefts, ∀ right : Node, left.same right.bare = left.same right)
    (rights : List Node) : Node.sames lefts (Node.bares rights) = Node.sames lefts rights := by
  induction lefts generalizing rights with
  | nil => cases rights <;> rfl
  | cons left lefts ih =>
    obtain ⟨first, others⟩ := List.forall_mem_cons.mp each
    cases rights with
    | nil => rfl
    | cons right rights => simp only [Node.bares, Node.sames, first, ih others]

/-- The comparison of trees looks at no field of an unsupported node. -/
theorem Node.same_bare (left right : Node) : left.same right.bare = left.same right := by
  induction left generalizing right with
  | number x => cases right <;> rfl
  | reference tag => cases right <;> rfl
  | variadic op a b others iha ihb ihs =>
    cases right with
    | variadic op' a' b' others' => simp only [Node.bare, Node.same, iha, ihb, Node.sames_bares ihs]
    | _ => rfl
  | unary op v ih =>
    cases right with
    | unary op' v' => simp only [Node.bare, Node.same, ih]
    | _ => rfl
  | comparison op l r ihl ihr =>
    cases right with
    | comparison op' l' r' => simp only [Node.bare, Node.same, ihl, ihr]
    | _ => rfl
  | conditional expr ifNode elseNode ihe ihi ihs =>
    cases right with
    | conditional expr' ifNode' elseNode' => simp only [Node.bare, Node.same, ihe, ihi, ihs]
    | _ => rfl
  | unsupported tag raw => cases right <;> rfl

theorem Node.sames_self {nodes : List Node} (each : ∀ node ∈ nodes, node.same node = true) :
    Node.sames nodes nodes = true := by
  induction nodes with
  | nil => rfl
  | cons node rest ih =>
    obtain ⟨first, others⟩ := List.forall_mem_cons.mp each
    rw [Node.sames, first, ih others, Bool.and_self]

/-- A tree without NaN is the same as itself. -/
theorem Node.same_self {node : Node}
    (numbers : ∀ x, Node.number x ∈ node.preorder → x.isNaN = false) : node.same node = true := by
  induction node using Node.child_induction with
  | each node ih =>
    have below : ∀ child ∈ node.children, child.same child = true := fun child member =>
      ih child member fun x inside => numbers x (Node.mem_preorder_of_child member inside)
    cases node with
    | number x => exact Double.beq_self (numbers x (by simp [Node.preorder]))
    | variadic op a b others =>
      obtain ⟨first, below⟩ := List.forall_mem_cons.mp below
      obtain ⟨second, further⟩ := List.forall_mem_cons.mp below
      simp [Node.same, first, second, Node.sames_self further]
    | _ => simp_all [Node.same, Node.children]

/-- No two expressions have one formula, but for the fields of their unsupported nodes and if no literal
is NaN. It takes for granted that the texts of their literals differ where the literals do; and the
tags of unsupported nodes are free of the signs of a formula. So the formula that is described, shown
for a node and logged when it is compiled gives the value: whatever the references give at both times,
the expressions compile to the same or not at all, and a call does the same. -/
theorem Source.formula_unique {source other : Source} {left right : Node}
    (read : source.root = .ok left) (readOther : other.root = .ok right)
    (literals : ∀ x y, Node.number x ∈ left.preorder → Node.number y ∈ right.preorder →
      Double.text x = Double.text y → x = y)
    (numbers : ∀ x, Node.number x ∈ left.preorder ++ right.preorder → x.isNaN = false)
    (tags : ∀ tag raw, Node.unsupported tag raw ∈ left.preorder ++ right.preorder →
      ∀ c ∈ tag.letters, c ∉ formulaSigns)
    (same : left.formula = right.formula) :
    left.bare = right.bare ∧ left.same right = true ∧
      (∀ leaf, left.meaning leaf = right.meaning leaf) ∧
      ∀ {H : Type} (config : Config) (before now : World H),
        (compile config before source).outcome.map (Compiled.call · now) =
          (compile config before other).outcome.map (Compiled.call · now) := by
  have plain : left.PlainTags := fun tag raw inside => tags tag raw (List.mem_append_left _ inside)
  have plainOther : right.PlainTags :=
    fun tag raw inside => tags tag raw (List.mem_append_right _ inside)
  have nothing : EndsOperand [] := fun c head => by cases head
  obtain ⟨bare, _⟩ := Node.separates literals plain plainOther [] [] nothing nothing
    (by rw [same])
  refine ⟨bare, ?_, fun leaf => ?_, fun config before now => ?_⟩
  · rw [← Node.same_bare, ← bare, Node.same_bare]
    exact Node.same_self fun x inside => numbers x (List.mem_append_left _ inside)
  · rw [← Node.meaning_bare, bare, Node.meaning_bare]
  · exact compile_call_of_bare read readOther bare now

/-- A statement that was read with its steps has the formula of one without any. The expressions have one
value, though the trees are not equal. -/
theorem Source.formula_unique_statement_with_steps :
    let steps : Json.Fields := [("type", .str "block"), ("steps", .arr [.null])]
    let graph : Json := .obj [("type", .str "cond"),
      ("expr", .obj [("type", .str "value"), ("tag", .float 1)]),
      ("ifNode", .obj [("type", .str "number"), ("value", .float 2)]), ("elseNode", .obj steps)]
    let left : Node := .conditional (.reference 1) (.number 2) (.unsupported "block" steps)
    let right : Node := .conditional (.reference 1) (.number 2) (.unsupported "block" [])
    (Source.wire graph).root = .ok left ∧ left.formula = right.formula ∧ left.bare = right.bare ∧
      ∀ {H : Type} (config : Config) (before now : World H),
        (compile config before (.wire graph)).outcome.map (Compiled.call · now) =
          (compile config before (.tree right)).outcome.map (Compiled.call · now) := by
  intro steps graph left right
  have read : (Source.wire graph).root = .ok left := rfl
  have same : left.formula = right.formula := rfl
  have number : (2 : Float).isNaN = false := by decide +kernel
  have literal (x : Float) (inside : Node.number x ∈ left.preorder ++ right.preorder) : x = 2 := by
    simpa [left, right, Node.preorder] using inside
  have tags : ∀ tag raw, Node.unsupported tag raw ∈ left.preorder ++ right.preorder →
      ∀ c ∈ tag.letters, c ∉ formulaSigns := by
    intro tag raw inside
    have block : tag = "block" := by
      rcases List.mem_append.mp inside with inside | inside <;>
        simp_all [left, right, Node.preorder]
    subst block
    exact Signless.of_all rfl
  have literals : ∀ x y, Node.number x ∈ left.preorder → Node.number y ∈ right.preorder →
      Double.text x = Double.text y → x = y := by
    intro x y atLeft atRight _
    rw [literal x (List.mem_append_left _ atLeft), literal y (List.mem_append_right _ atRight)]
  have numbers (x : Float) (inside : Node.number x ∈ left.preorder ++ right.preorder) :
      x.isNaN = false := by
    rw [literal x inside]
    exact number
  have readOther : (Source.tree right).root = .ok right := rfl
  obtain ⟨bare, _, _, calls⟩ :=
    Source.formula_unique read readOther literals numbers tags same
  exact ⟨read, same, bare, calls⟩

/-- A tag with signs in it can stand for two operands. -/
example :
    (Node.variadic .add (.reference 1) (.unsupported "min?, max" []) []).formula =
      (Node.variadic .add (.reference 1) (.unsupported "min" []) [.unsupported "max" []]).formula := by
  decide

end TickGraph
