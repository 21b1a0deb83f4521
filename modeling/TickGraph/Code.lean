import TickGraph.Config
import TickGraph.Operator.Value
import TickGraph.Traced

namespace TickGraph

/-- An expression that is ready to run. A captured reference holds its handle for ever; a deferred
one is looked up again in every run. -/
inductive Code (H : Type) where
  | constant (x : Float)
  | captured (tag : Int) (handle : H)
  | deferred (tag : Int)
  | variadic (op : VariadicOp) (a b : Code H) (others : List (Code H))
  | unary (op : UnaryOp) (v : Code H)
  | comparison (op : ComparisonOp) (left right : Code H)
  | conditional (expr ifCode elseCode : Code H)
deriving Inhabited

mutual

/-- The value of an expression now. Every operand is evaluated, from left to right; a conditional
evaluates one of its two branches. -/
def Code.run {H : Type} (world : World H) : Code H → Traced OutOfRange Float
  | .constant x => pure x
  | .captured tag handle => world.readScalar tag handle
  | .deferred tag => world.resolveScalar tag
  | .variadic op a b others => do
    let x ← a.run world
    let y ← b.run world
    let rest ← Code.runs world others
    pure (foldOperands op.apply x y rest)
  | .unary op v => do
    let x ← v.run world
    pure (op.apply x)
  | .comparison op left right => do
    let x ← left.run world
    let y ← right.run world
    pure (Double.flag (op.holds x y))
  | .conditional expr ifCode elseCode => do
    let x ← expr.run world
    if Double.truthy x then ifCode.run world else elseCode.run world

def Code.runs {H : Type} (world : World H) : List (Code H) → Traced OutOfRange (List Float)
  | [] => pure []
  | code :: rest => do
    let x ← code.run world
    let xs ← Code.runs world rest
    pure (x :: xs)

end

/-- A tag without an evaluation, in a strict configuration. -/
structure UnsupportedOperator where
  path : Path
  tag : Text
deriving DecidableEq, Inhabited

def UnsupportedOperator.message (error : UnsupportedOperator) : Text :=
  error.path.render ++ ": unsupported operator '" ++ error.tag ++ "'"

mutual

/-- Compiles a tree, operands from left to right. What cannot be evaluated becomes zero for ever and
is reported, unless the configuration is strict. -/
def Code.ofNode {H : Type} (config : Config) (world : World H) :
    Node → Path → Traced UnsupportedOperator (Code H)
  | .number x, _ => pure (.constant x)
  | .reference tag, path =>
    match config.mode with
    | .tick => pure (.deferred tag)
    | .compile => do
      match ← world.find tag with
      | some handle => pure (.captured tag handle)
      | none => do
        Traced.emit (.notice (.unresolved path tag))
        pure (.constant 0)
  | .variadic op a b others, path => do
    let a ← Code.ofNode config world a (path.field .a)
    let b ← Code.ofNode config world b (path.field .b)
    let others ← Code.ofNodes config world others 0 path
    pure (.variadic op a b others)
  | .unary op v, path => do
    let v ← Code.ofNode config world v (path.field .v)
    pure (.unary op v)
  | .comparison op left right, path => do
    let left ← Code.ofNode config world left (path.field .left)
    let right ← Code.ofNode config world right (path.field .right)
    pure (.comparison op left right)
  | .conditional expr ifNode elseNode, path => do
    let expr ← Code.ofNode config world expr (path.field .expr)
    let ifCode ← Code.ofNode config world ifNode (path.field .ifNode)
    let elseCode ← Code.ofNode config world elseNode (path.field .elseNode)
    pure (.conditional expr ifCode elseCode)
  | .unsupported tag _, path =>
    if config.strict then Traced.ofExcept (.error ⟨path, tag⟩)
    else do
      Traced.emit (.notice (.unsupported path tag))
      pure (.constant 0)

/-- Compiles the further operands from number `i` on. -/
def Code.ofNodes {H : Type} (config : Config) (world : World H) :
    List Node → Nat → Path → Traced UnsupportedOperator (List (Code H))
  | [], _, _ => pure []
  | node :: rest, i, path => do
    let code ← Code.ofNode config world node (path.other i)
    let codes ← Code.ofNodes config world rest (i + 1) path
    pure (code :: codes)

end

end TickGraph
