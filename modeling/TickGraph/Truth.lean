import TickGraph.Number

namespace TickGraph

/-- Zero of either sign is false and every other number is true, NaN included. -/
def Double.truthy (x : Float) : Bool :=
  x != 0

/-- The double that stands for a truth value. -/
def Double.flag (b : Bool) : Float :=
  if b then 1 else 0

/-- An absent value is false. -/
def Number.truthy : Option Number → Bool
  | none => false
  | some (.int n) => n != 0
  | some (.float x) => Double.truthy x

end TickGraph
