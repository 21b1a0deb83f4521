import TickGraph.Node
import TickGraph.Path

namespace TickGraph

inductive Level where
  | debug
  | warning
deriving DecidableEq, Inhabited, Repr

def Level.name : Level → String
  | .debug => "DEBUG"
  | .warning => "WARNING"

inductive Notice where
  | unresolved (path : Path) (tag : Int)
  | unsupported (path : Path) (tag : Text)
  | compiled (root : Node)
  | valueless (tag : Int)
deriving Inhabited

/-- A leaf that became zero is worth a warning. -/
def Notice.level : Notice → Level
  | .unresolved _ _ => .warning
  | .unsupported _ _ => .warning
  | .compiled _ => .debug
  | .valueless _ => .debug

def Notice.text : Notice → Text
  | .unresolved path tag =>
    path.render ++ ": unresolved reference to node " ++ toString tag ++
      ", compiled to constant 0.0"
  | .unsupported path tag =>
    path.render ++ ": " ++ (if isReserved tag then "reserved statement" else "unknown operator") ++
      " '" ++ tag ++ "' compiled to constant 0.0"
  | .compiled root =>
    "Compiled expression " ++ root.formula ++ " (nodes=" ++ toString root.count ++ ", depth=" ++
      toString root.depth ++ ")"
  | .valueless tag => "Node " ++ toString tag ++ " (object) does not produce a value"

end TickGraph
