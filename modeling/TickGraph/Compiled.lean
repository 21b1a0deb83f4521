import TickGraph.Ascending
import TickGraph.Code
import TickGraph.Node.Wire

namespace TickGraph

/-- A tree and its code. -/
structure Compiled (H : Type) where
  root : Node
  code : Code H
deriving Inhabited

/-- The tags that the expression reads, in ascending order and each once. -/
def Compiled.references {H : Type} (expression : Compiled H) : List Int :=
  ascending expression.root.references

/-- The value of the expression now. -/
def Compiled.call {H : Type} (expression : Compiled H) (world : World H) :
    Traced OutOfRange Float :=
  expression.code.run world

/-- A graph as it was received, or the tree that it was read into. -/
inductive Source where
  | wire (graph : Json)
  | tree (root : Node)
deriving Inhabited

def Source.root : Source → Except MalformedGraph Node
  | .wire graph => Node.read graph Path.graph
  | .tree root => .ok root

/-- Why an expression does not compile. -/
inductive CompileError where
  | malformed (fault : MalformedGraph)
  | unsupported (error : UnsupportedOperator)
deriving DecidableEq, Inhabited

/-- Compiles a graph. All of it is read before anything is looked up. -/
def compile {H : Type} (config : Config) (world : World H) (source : Source) :
    Traced CompileError (Compiled H) := do
  let root ← Traced.ofExcept (source.root.mapError CompileError.malformed)
  let code ← (Code.ofNode config world root Path.graph).mapError CompileError.unsupported
  Traced.emit (.notice (.compiled root))
  pure ⟨root, code⟩

end TickGraph
