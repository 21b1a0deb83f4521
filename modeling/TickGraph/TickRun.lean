import TickGraph.Binding
import TickGraph.Evaluation
import TickGraph.ExpressionNode

namespace TickGraph

/-- The values of the ticks that ended well, the events of all, and what stopped the run. -/
structure TickRun where
  values : List Float
  events : List Event
  failure : Option Failure

/-- The nodes of the bound tags, each with its first value. -/
def Binding.register (bindings : List Binding) : Except Failure (Registry Float) :=
  TickGraph.register (bindings.map fun binding => (binding.tag, .float binding.first))

/-- Gives every node of a bound tag the value that it has in a tick. -/
def Binding.setAll (bindings : List Binding) (k : Nat) (registry : Registry Float) :
    Registry Float :=
  bindings.foldl (fun registry binding => registry.set binding.tag (binding.valueAt k)) registry

/-- Evaluates a node in `count` ticks, the first of them number `k`. Both the registered values and
the node go from tick to tick. -/
def TickRun.make (bindings : List Binding) :
    Nat → Nat → Registry Float → ExpressionNode Int → TickRun
  | 0, _, _, _ => ⟨[], [], none⟩
  | count + 1, k, registry, node =>
    let registry := Binding.setAll bindings k registry
    let pass := node.evaluate (World.ofRegistry registry)
    match pass.outcome with
    | .error failure => ⟨[], pass.events, some failure⟩
    | .ok _ =>
      let rest := TickRun.make bindings count (k + 1) registry pass.node
      ⟨pass.node.value :: rest.values, pass.events ++ rest.events, rest.failure⟩

/-- One line for each tick, counted from one. -/
def tickLines : Nat → List Float → List String
  | _, [] => []
  | k, x :: rest =>
    ("tick " ++ toString (k + 1) ++ ": " ++ Double.text x ++ "\n") :: tickLines (k + 1) rest

/-- A result in the saved file, where infinities and NaN have no number. -/
def savedNumber (x : Float) : String :=
  if x.isFinite then Double.text x else "null"

/-- The saved file: one result on each line. -/
def savedText (values : List Float) : String :=
  "\x7b\n  \"results\": [\n    " ++ String.intercalate ",\n    " (values.map savedNumber) ++
    "\n  ]\n\x7d"

end TickGraph
