import TickGraph.Double

namespace TickGraph

inductive Number where
  | int (n : Int)
  | float (x : Float)
deriving Inhabited

/-- An integer lies outside the range of doubles. -/
inductive OutOfRange where
  | outOfRange
deriving DecidableEq, Inhabited

/-- From here on the nearest double would be `2^1024`, which does not exist. -/
def Number.doubleLimit : Nat :=
  Nat.pow 2 1024 - Nat.pow 2 970

/-- The nearest double, ties to even. -/
def Number.toDouble : Number → Except OutOfRange Float
  | .float x => .ok x
  | .int n => if n.natAbs < Number.doubleLimit then .ok (Float.ofInt n) else .error .outOfRange

/-- An absent value counts as zero. -/
def Number.scalar : Option Number → Except OutOfRange Float
  | none => .ok 0
  | some number => number.toDouble

end TickGraph
