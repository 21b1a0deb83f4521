import TickGraph.Double.Text
import TickGraph.Json
import TickGraph.Operator

namespace TickGraph

/-- An expression. A tag without an evaluation becomes a leaf that keeps the fields it came with. -/
inductive Node where
  | number (x : Float)
  | reference (tag : Int)
  | variadic (op : VariadicOp) (a b : Node) (others : List Node)
  | unary (op : UnaryOp) (v : Node)
  | comparison (op : ComparisonOp) (left right : Node)
  | conditional (expr ifNode elseNode : Node)
  | unsupported (tag : Text) (raw : Json.Fields)
deriving Inhabited

/-- Whether a tag belongs to an operator, though perhaps to one without an evaluation. -/
def isReserved (tag : Text) : Bool :=
  (Operator.ofTag? tag).isSome

/-- The word for the kind of a node in messages. -/
def Node.kindName : Node → String
  | .number _ => "NumberNode"
  | .reference _ => "ValueNode"
  | .variadic _ _ _ _ => "MultiOpNode"
  | .unary _ _ => "SingleOpNode"
  | .comparison _ _ _ => "ComparisonNode"
  | .conditional _ _ _ => "CondNode"
  | .unsupported _ _ => "UnsupportedNode"

/-- The operands of a node, in the order in which they are evaluated. -/
def Node.children : Node → List Node
  | .number _ => []
  | .reference _ => []
  | .variadic _ a b others => a :: b :: others
  | .unary _ v => [v]
  | .comparison _ left right => [left, right]
  | .conditional expr ifNode elseNode => [expr, ifNode, elseNode]
  | .unsupported _ _ => []

/-- Operands behind an operator's name. -/
def applied (name : String) (operands : List Text) : Text :=
  name ++ "(" ++ Text.intercalate ", " operands ++ ")"

mutual

/-- The expression in one line, each operator in front of its operands. -/
def Node.formula : Node → Text
  | .number x => Double.text x
  | .reference tag => "value#" ++ toString tag
  | .variadic op a b others => applied op.tag (a.formula :: b.formula :: Node.formulas others)
  | .unary op v => applied op.tag [v.formula]
  | .comparison op left right => applied op.tag [left.formula, right.formula]
  | .conditional expr ifNode elseNode =>
    applied Operator.conditional.tag [expr.formula, ifNode.formula, elseNode.formula]
  | .unsupported tag _ => tag ++ "?"

def Node.formulas : List Node → List Text
  | [] => []
  | node :: rest => node.formula :: Node.formulas rest

end

mutual

/-- The number of nodes in a tree. -/
def Node.count : Node → Nat
  | .number _ => 1
  | .reference _ => 1
  | .variadic _ a b others => 1 + (a.count + (b.count + Node.counts others))
  | .unary _ v => 1 + v.count
  | .comparison _ left right => 1 + (left.count + right.count)
  | .conditional expr ifNode elseNode => 1 + (expr.count + (ifNode.count + elseNode.count))
  | .unsupported _ _ => 1

def Node.counts : List Node → Nat
  | [] => 0
  | node :: rest => node.count + Node.counts rest

end

mutual

/-- The number of nodes from the root to the farthest leaf. -/
def Node.depth : Node → Nat
  | .number _ => 1
  | .reference _ => 1
  | .variadic _ a b others => 1 + max a.depth (max b.depth (Node.depths others))
  | .unary _ v => 1 + v.depth
  | .comparison _ left right => 1 + max left.depth right.depth
  | .conditional expr ifNode elseNode => 1 + max expr.depth (max ifNode.depth elseNode.depth)
  | .unsupported _ _ => 1

def Node.depths : List Node → Nat
  | [] => 0
  | node :: rest => max node.depth (Node.depths rest)

end

mutual

/-- All nodes of a tree, each before its operands. -/
def Node.preorder : Node → List Node
  | .number x => [.number x]
  | .reference tag => [.reference tag]
  | .variadic op a b others =>
    .variadic op a b others :: (a.preorder ++ (b.preorder ++ Node.preorders others))
  | .unary op v => .unary op v :: v.preorder
  | .comparison op left right => .comparison op left right :: (left.preorder ++ right.preorder)
  | .conditional expr ifNode elseNode =>
    .conditional expr ifNode elseNode ::
      (expr.preorder ++ (ifNode.preorder ++ elseNode.preorder))
  | .unsupported tag raw => [.unsupported tag raw]

def Node.preorders : List Node → List Node
  | [] => []
  | node :: rest => node.preorder ++ Node.preorders rest

end

def Node.tag? : Node → Option Int
  | .reference tag => some tag
  | _ => none

/-- The tags of the reference leaves, each as often as it occurs. -/
def Node.references (node : Node) : List Int :=
  node.preorder.filterMap Node.tag?

mutual

/-- Whether two expressions are the same. Literals are compared as numbers, so `0.0` is `-0.0`; the
fields of an unsupported node do not count. -/
def Node.same : Node → Node → Bool
  | .number x, .number y => x == y
  | .reference s, .reference t => s == t
  | .variadic op a b others, .variadic op' a' b' others' =>
    op == op' && (a.same a' && (b.same b' && Node.sames others others'))
  | .unary op v, .unary op' v' => op == op' && v.same v'
  | .comparison op left right, .comparison op' left' right' =>
    op == op' && (left.same left' && right.same right')
  | .conditional expr ifNode elseNode, .conditional expr' ifNode' elseNode' =>
    expr.same expr' && (ifNode.same ifNode' && elseNode.same elseNode')
  | .unsupported tag _, .unsupported tag' _ => tag == tag'
  | _, _ => false

def Node.sames : List Node → List Node → Bool
  | [], [] => true
  | node :: rest, node' :: rest' => node.same node' && Node.sames rest rest'
  | _, _ => false

end

theorem Node.formulas_eq_map (nodes : List Node) :
    Node.formulas nodes = nodes.map Node.formula := by
  induction nodes with
  | nil => rfl
  | cons node rest ih => rw [Node.formulas, ih, List.map_cons]

theorem Node.counts_eq_foldr (nodes : List Node) :
    Node.counts nodes = nodes.foldr (fun node total => node.count + total) 0 := by
  induction nodes with
  | nil => rfl
  | cons node rest ih => rw [Node.counts, ih, List.foldr_cons]

theorem Node.depths_eq_foldr (nodes : List Node) :
    Node.depths nodes = nodes.foldr (fun node deepest => max node.depth deepest) 0 := by
  induction nodes with
  | nil => rfl
  | cons node rest ih => rw [Node.depths, ih, List.foldr_cons]

theorem Node.preorders_eq_flatMap (nodes : List Node) :
    Node.preorders nodes = nodes.flatMap Node.preorder := by
  induction nodes with
  | nil => rfl
  | cons node rest ih => rw [Node.preorders, ih, List.flatMap_cons]

/-- A tree has one node more than its operands together. -/
theorem Node.count_eq_children (node : Node) :
    node.count = 1 + node.children.foldr (fun child total => child.count + total) 0 := by
  cases node <;> simp [Node.count, Node.children, Node.counts_eq_foldr]

/-- A tree is one level deeper than its deepest operand. -/
theorem Node.depth_eq_children (node : Node) :
    node.depth = 1 + node.children.foldr (fun child deepest => max child.depth deepest) 0 := by
  cases node <;> simp [Node.depth, Node.children, Node.depths_eq_foldr]

/-- The root comes first, then the operands one after the other. -/
theorem Node.preorder_eq_children (node : Node) :
    node.preorder = node :: node.children.flatMap Node.preorder := by
  cases node <;> simp [Node.preorder, Node.children, Node.preorders_eq_flatMap]

end TickGraph
