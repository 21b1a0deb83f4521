import TickGraph.Text

namespace TickGraph

/-- Operators with two operands or more. -/
inductive VariadicOp where
  | add
  | sub
  | multiply
  | divide
  | modulo
  | pow
  | and
  | or
deriving DecidableEq, Inhabited, Repr

inductive UnaryOp where
  | sqrt
  | log
  | sin
  | cos
  | tan
  | acos
  | asin
  | atan
  | exp
  | round
  | not
deriving DecidableEq, Inhabited, Repr

inductive ComparisonOp where
  | eq
  | neq
  | lessThan
  | greaterThan
  | lessOrEq
  | greaterOrEq
deriving DecidableEq, Inhabited, Repr

/-- Statements have reserved tags and no meaning as expressions. -/
inductive Statement where
  | set
  | block
deriving DecidableEq, Inhabited, Repr

inductive Operator where
  | variadic (op : VariadicOp)
  | unary (op : UnaryOp)
  | comparison (op : ComparisonOp)
  | reference
  | literal
  | conditional
  | statement (s : Statement)
deriving DecidableEq, Inhabited, Repr

def VariadicOp.tag : VariadicOp → String
  | .add => "add"
  | .sub => "sub"
  | .multiply => "multiply"
  | .divide => "divide"
  | .modulo => "modulo"
  | .pow => "pow"
  | .and => "and"
  | .or => "or"

def UnaryOp.tag : UnaryOp → String
  | .sqrt => "sqrt"
  | .log => "log"
  | .sin => "sin"
  | .cos => "cos"
  | .tan => "tan"
  | .acos => "acos"
  | .asin => "asin"
  | .atan => "atan"
  | .exp => "exp"
  | .round => "round"
  | .not => "not"

def ComparisonOp.tag : ComparisonOp → String
  | .eq => "eq"
  | .neq => "neq"
  | .lessThan => "lessThan"
  | .greaterThan => "greaterThan"
  | .lessOrEq => "lessOrEq"
  | .greaterOrEq => "greaterOrEq"

def Statement.tag : Statement → String
  | .set => "set"
  | .block => "block"

/-- The word that names an operator in the `type` field of a graph. -/
def Operator.tag : Operator → String
  | .variadic op => op.tag
  | .unary op => op.tag
  | .comparison op => op.tag
  | .reference => "value"
  | .literal => "number"
  | .conditional => "cond"
  | .statement s => s.tag

/-- All operators, category by category. -/
def Operator.all : List Operator :=
  [.variadic .add, .variadic .sub, .variadic .multiply, .variadic .divide, .variadic .modulo,
    .variadic .pow, .unary .sqrt, .unary .log, .unary .sin, .unary .cos, .unary .tan, .unary .acos,
    .unary .asin, .unary .atan, .unary .exp, .unary .round, .unary .not, .variadic .and,
    .variadic .or, .comparison .eq, .comparison .neq, .comparison .lessThan,
    .comparison .greaterThan, .comparison .lessOrEq, .comparison .greaterOrEq, .reference, .literal,
    .conditional, .statement .set, .statement .block]

/-- The operator that a tag names; upper and lower case differ. -/
def Operator.ofTag? (tag : Text) : Option Operator :=
  Operator.all.find? fun op => (op.tag : Text) == tag

/-- The tag in capitals, with an underscore where a capital began a word. -/
def Operator.member (op : Operator) : String :=
  String.ofList (op.tag.toList.flatMap fun c => if c.isUpper then ['_', c] else [c.toUpper])

theorem Operator.mem_all (op : Operator) : op ∈ Operator.all := by
  cases op with
  | variadic op => cases op <;> decide
  | unary op => cases op <;> decide
  | comparison op => cases op <;> decide
  | statement s => cases s <;> decide
  | _ => decide

/-- Every operator is found under its tag, so no two share one. -/
theorem Operator.ofTag?_tag (op : Operator) : Operator.ofTag? op.tag = some op := by
  cases op with
  | variadic op => cases op <;> rfl
  | unary op => cases op <;> rfl
  | comparison op => cases op <;> rfl
  | statement s => cases s <;> rfl
  | _ => rfl

theorem Operator.tag_of_ofTag? {tag : Text} {op : Operator}
    (found : Operator.ofTag? tag = some op) : op.tag = tag := by
  have same := List.find?_some found
  exact eq_of_beq same

end TickGraph
