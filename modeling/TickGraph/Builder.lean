import TickGraph.Compiled
import TickGraph.Text.Numeral
import TickGraph.Text.Quoted
import TickGraph.Truth

namespace TickGraph

/-- An operand of a built graph. A carrier is a named thing outside the graph, with a tag or without
one. -/
inductive Operand where
  | plain (d : Json)
  | node (root : Node)
  | carrier (name : String) (tag : Option Json)
deriving Inhabited

inductive BuildFailure where
  | missingType
  | noExpression (got : String)
  | noDouble (got : String)
  | noInteger (got : String)
  | doubleText (text : Text)
  | integerText (text : Text)
  | integerTooLong (digits : Nat)
  | outOfRange
  | infinite
  | notANumber
  | wrongCount
deriving DecidableEq, Inhabited

def BuildFailure.message : BuildFailure → String
  | .missingType => "Graph mapping must have a 'type' field"
  | .noExpression got => "Cannot build an expression from " ++ got
  | .noDouble got => "float() argument must be a string or a real number, not '" ++ got ++ "'"
  | .noInteger got =>
    "int() argument must be a string, a bytes-like object or a real number, not '" ++ got ++ "'"
  | .doubleText text => "could not convert string to float: " ++ text.quoted
  | .integerText text =>
    "invalid literal for int() with base 10: " ++ String.ofList (text.quoted.toList.take 200)
  | .integerTooLong digits =>
    "Exceeds the limit (" ++ toString Digits.maxIntegerDigits ++
      " digits) for integer string conversion: value has " ++ toString digits ++
      " digits; use sys.set_int_max_str_digits() to increase the limit"
  | .outOfRange => "int too large to convert to float"
  | .infinite => "cannot convert float infinity to integer"
  | .notANumber => "cannot convert float NaN to integer"
  | .wrongCount => "wrong number of operands"

def literalGraph (x : Float) : Json :=
  (Node.number x).toJson

def referenceGraph (tag : Int) : Json :=
  (Node.reference tag).toJson

def numberGraph (number : Number) : Except BuildFailure Json :=
  match number.toDouble with
  | .ok x => .ok (literalGraph x)
  | .error _ => .error .outOfRange

/-- The graph that an operand stands for. A graph is taken as it is if it has a `type`, whatever
that is. -/
def Operand.toGraph : Operand → Except BuildFailure Json
  | .node root => .ok root.toJson
  | .plain (.obj fields) =>
    if (fields.lookup Json.typeKey).isSome then .ok (.obj fields) else .error .missingType
  | .plain (.int n) => numberGraph (.int n)
  | .plain (.float x) => numberGraph (.float x)
  | .plain d => .error (.noExpression d.kind.name)
  | .carrier _ (some (.int tag)) => .ok (referenceGraph tag)
  | .carrier name _ => .error (.noExpression name)

/-- The word for an operand that has no number. -/
def Operand.kindName : Operand → String
  | .plain d => d.kind.name
  | .node root => root.kindName
  | .carrier name _ => name

/-- The double that an operand is or writes. Truth values count as one and zero. -/
def Operand.double : Operand → Except BuildFailure Float
  | .plain (.int n) => (Number.int n).toDouble.mapError fun _ => .outOfRange
  | .plain (.float x) => .ok x
  | .plain (.bool b) => .ok (Double.flag b)
  | .plain (.str text) =>
    match Numeral.double? text.chars with
    | some x => .ok x
    | none => .error (.doubleText text)
  | operand => .error (.noDouble operand.kindName)

/-- Reads an integer, and tells a text that is too long from one that is none. -/
def integerOfText (text : Text) : Except BuildFailure Int :=
  match Numeral.int? text.chars, Numeral.integerDigits? text.chars with
  | some n, _ => .ok n
  | none, some digits =>
    if Digits.maxIntegerDigits < digits then .error (.integerTooLong digits)
    else .error (.integerText text)
  | none, none => .error (.integerText text)

/-- The integer that an operand is or writes. A double loses its fraction, and truth values count as
one and zero. -/
def Operand.integer : Operand → Except BuildFailure Int
  | .plain (.int n) => .ok n
  | .plain (.float x) =>
    match Double.truncate x with
    | .ok n => .ok n
    | .error .infinite => .error .infinite
    | .error .notANumber => .error .notANumber
  | .plain (.bool b) => .ok (if b then 1 else 0)
  | .plain (.str text) => integerOfText text
  | operand => .error (.noInteger operand.kindName)

/-- The ways to build a graph. -/
inductive Builder where
  | variadic (op : VariadicOp)
  | unary (op : UnaryOp)
  | comparison (op : ComparisonOp)
  | conditional
  | literal
  | reference
  | graph
deriving DecidableEq, Inhabited

/-- Builds a graph. Operands are converted from left to right, so the first bad one gives the
failure. A conditional without an else branch gets zero there. -/
def Builder.build : Builder → List Operand → Except BuildFailure Json
  | .variadic op, a :: b :: others => do
    let a ← a.toGraph
    let b ← b.toGraph
    let others ← others.mapM Operand.toGraph
    pure (.obj [(Json.typeKey, .str op.tag), (Field.a.key, a), (Field.b.key, b),
      (Field.others.key, .arr others)])
  | .unary op, [v] => do
    let v ← v.toGraph
    pure (.obj [(Json.typeKey, .str op.tag), (Field.v.key, v)])
  | .comparison op, [left, right] => do
    let left ← left.toGraph
    let right ← right.toGraph
    pure (.obj [(Json.typeKey, .str op.tag), (Field.left.key, left), (Field.right.key, right)])
  | .conditional, expr :: ifNode :: rest => do
    let elseNode ←
      match rest with
      | [] => pure (Operand.plain (.int 0))
      | [elseNode] => pure elseNode
      | _ => .error .wrongCount
    let expr ← expr.toGraph
    let ifNode ← ifNode.toGraph
    let elseNode ← elseNode.toGraph
    pure (.obj [(Json.typeKey, .str Operator.conditional.tag), (Field.expr.key, expr),
      (Field.ifNode.key, ifNode), (Field.elseNode.key, elseNode)])
  | .literal, [operand] => do
    pure (literalGraph (← operand.double))
  | .reference, [operand] => do
    pure (referenceGraph (← operand.integer))
  | .graph, [operand] => operand.toGraph
  | _, _ => .error .wrongCount

/-- The name of what a builder makes: the tag of its operator, or of the leaf. -/
def Builder.tag? : Builder → Option String
  | .variadic op => some op.tag
  | .unary op => some op.tag
  | .comparison op => some op.tag
  | .conditional => some Operator.conditional.tag
  | .literal => some Operator.literal.tag
  | .reference => some Operator.reference.tag
  | .graph => none

end TickGraph
