import TickGraph.Operator.Signature
import TickGraph.Text

namespace TickGraph

/-- One level down: into a field that holds a child, or into one of the further operands. -/
inductive Step where
  | field (f : Field)
  | other (i : Nat)
deriving DecidableEq, Inhabited, Repr

structure Path where
  root : Text
  steps : List Step
deriving DecidableEq, Inhabited, Repr

/-- The place of a whole graph. -/
def Path.graph : Path :=
  ⟨"graph", []⟩

def Path.down (path : Path) (step : Step) : Path :=
  ⟨path.root, path.steps ++ [step]⟩

def Path.field (path : Path) (f : Field) : Path :=
  path.down (.field f)

def Path.other (path : Path) (i : Nat) : Path :=
  path.down (.other i)

def Step.render : Step → String
  | .field f => "." ++ f.name
  | .other i => ".others[" ++ toString i ++ "]"

/-- The root's name followed by the steps. -/
def Path.render (path : Path) : Text :=
  path.root ++ String.join (path.steps.map Step.render)

end TickGraph
