import TickGraph.Failure

namespace TickGraph

/-- An expression node is compiled at most once. -/
inductive Lifecycle (H : Type) where
  | uncompiled (source : Source)
  | compiled (expression : Compiled H)
deriving Inhabited

structure ExpressionNode (H : Type) where
  config : Config
  lifecycle : Lifecycle H
  value : Float
deriving Inhabited

/-- What an operation leaves behind: the node, the events and an answer. -/
structure Pass (H α : Type) where
  node : ExpressionNode H
  events : List Event
  outcome : Except Failure α

namespace ExpressionNode

variable {H : Type}

def create (config : Config) (source : Source) : ExpressionNode H :=
  ⟨config, .uncompiled source, 0⟩

def isCompiled (node : ExpressionNode H) : Bool :=
  match node.lifecycle with
  | .uncompiled _ => false
  | .compiled _ => true

/-- The compiled expression. It is made at the first call and kept from then on; if that fails, the
node stays as it was. -/
def compile (node : ExpressionNode H) (world : World H) : Pass H (Compiled H) :=
  match node.lifecycle with
  | .compiled expression => ⟨node, [], .ok expression⟩
  | .uncompiled source =>
    let run := TickGraph.compile node.config world source
    match run.outcome with
    | .ok expression =>
      ⟨⟨node.config, .compiled expression, node.value⟩, run.events, .ok expression⟩
    | .error error => ⟨node, run.events, .error (Failure.ofCompile error)⟩

/-- Evaluates once and stores the result. -/
def evaluate (node : ExpressionNode H) (world : World H) : Pass H Float :=
  let made := node.compile world
  match made.outcome with
  | .error failure => ⟨made.node, made.events, .error failure⟩
  | .ok expression =>
    let run := expression.call world
    match run.outcome with
    | .ok x => ⟨⟨node.config, made.node.lifecycle, x⟩, made.events ++ run.events, .ok x⟩
    | .error error =>
      ⟨made.node, made.events ++ run.events, .error (Failure.ofRange error)⟩

/-- Evaluates without storing the result. A node that is not compiled gives nothing. -/
def call? (node : ExpressionNode H) (world : World H) : Traced OutOfRange (Option Float) :=
  match node.lifecycle with
  | .uncompiled _ => pure none
  | .compiled expression => do
    let x ← expression.call world
    pure (some x)

/-- The tree of the node, which is the same before and after compiling. -/
def root (node : ExpressionNode H) : Except MalformedGraph Node :=
  match node.lifecycle with
  | .uncompiled source => source.root
  | .compiled expression => .ok expression.root

def references (node : ExpressionNode H) : Except MalformedGraph (List Int) :=
  node.root.map Node.references

def formula? (node : ExpressionNode H) : Option Text :=
  node.root.toOption.map Node.formula

/-- The node in one line. -/
def summary (node : ExpressionNode H) : Text :=
  "AnimatedExpressionNode(" ++ (if node.isCompiled then "compiled" else "uncompiled") ++ ", " ++
    node.formula?.getD "<malformed>" ++ ", value=" ++ Double.text node.value ++ ")"

end ExpressionNode

end TickGraph
