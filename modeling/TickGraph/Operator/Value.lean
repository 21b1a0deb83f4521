import TickGraph.Arithmetic
import TickGraph.Operator
import TickGraph.Truth

namespace TickGraph

/-- The value of two operands. `and` and `or` look at truth values and give `1` or `0`. -/
def VariadicOp.apply : VariadicOp → Float → Float → Float
  | .add, x, y => x + y
  | .sub, x, y => x - y
  | .multiply, x, y => x * y
  | .divide, x, y => x / y
  | .modulo, x, y => flooredModulo x y
  | .pow, x, y => power x y
  | .and, x, y => Double.flag (Double.truthy x && Double.truthy y)
  | .or, x, y => Double.flag (Double.truthy x || Double.truthy y)

def UnaryOp.apply : UnaryOp → Float → Float
  | .sqrt, x => x.sqrt
  | .log, x => x.log
  | .sin, x => x.sin
  | .cos, x => x.cos
  | .tan, x => x.tan
  | .acos, x => x.acos
  | .asin, x => x.asin
  | .atan, x => x.atan
  | .exp, x => x.exp
  | .round, x => roundHalfUp x
  | .not, x => Double.flag (!Double.truthy x)

/-- A comparison with NaN fails, save that NaN differs from everything. -/
def ComparisonOp.holds : ComparisonOp → Float → Float → Bool
  | .eq, x, y => x == y
  | .neq, x, y => x != y
  | .lessThan, x, y => decide (x < y)
  | .greaterThan, x, y => decide (y < x)
  | .lessOrEq, x, y => decide (x ≤ y)
  | .greaterOrEq, x, y => decide (y ≤ x)

end TickGraph
