import TickGraph.Operator

namespace TickGraph

/-- The fields of a node that a graph has to hold. -/
inductive Field where
  | a
  | b
  | v
  | left
  | right
  | expr
  | ifNode
  | elseNode
  | others
  | value
  | tag
deriving DecidableEq, Inhabited, Repr

def Field.name : Field → String
  | .a => "a"
  | .b => "b"
  | .v => "v"
  | .left => "left"
  | .right => "right"
  | .expr => "expr"
  | .ifNode => "ifNode"
  | .elseNode => "elseNode"
  | .others => "others"
  | .value => "value"
  | .tag => "tag"

/-- The name of a field as it stands in an object. -/
def Field.key (field : Field) : Text :=
  field.name

inductive Category where
  | multi
  | single
  | logical
  | comparison
  | reference
  | literal
  | conditional
  | statement
deriving DecidableEq, Inhabited, Repr

def Category.all : List Category :=
  [.multi, .single, .logical, .comparison, .reference, .literal, .conditional, .statement]

def Category.name : Category → String
  | .multi => "MULTI"
  | .single => "SINGLE"
  | .logical => "LOGICAL"
  | .comparison => "COMPARISON"
  | .reference => "REFERENCE"
  | .literal => "LITERAL"
  | .conditional => "CONDITIONAL"
  | .statement => "STATEMENT"

def Category.ofName? (name : String) : Option Category :=
  Category.all.find? fun category => category.name == name

/-- The fields that hold exactly one child node, in the order in which they are evaluated. -/
def Category.fields : Category → List Field
  | .multi => [.a, .b]
  | .single => [.v]
  | .logical => [.a, .b]
  | .comparison => [.left, .right]
  | .reference => []
  | .literal => []
  | .conditional => [.expr, .ifNode, .elseNode]
  | .statement => []

def VariadicOp.category : VariadicOp → Category
  | .and => .logical
  | .or => .logical
  | _ => .multi

def Operator.category : Operator → Category
  | .variadic op => op.category
  | .unary _ => .single
  | .comparison _ => .comparison
  | .reference => .reference
  | .literal => .literal
  | .conditional => .conditional
  | .statement _ => .statement

/-- Statements alone have no evaluation. -/
def Operator.supported (op : Operator) : Bool :=
  op.category != .statement

def Category.operators (category : Category) : List Operator :=
  Operator.all.filter fun op => op.category == category

end TickGraph
