import TickGraph.Compiled
import TickGraph.Payload
import TickGraph.Registry

namespace TickGraph

/-- Why an operation on nodes fails. -/
inductive Failure where
  | malformed (fault : MalformedGraph)
  | unsupported (error : UnsupportedOperator)
  | payload (error : InvalidPayload)
  | registry (error : RegistryError)
  | outOfRange
  | unknownName (name : String)
deriving DecidableEq, Inhabited

def Failure.ofCompile : CompileError → Failure
  | .malformed fault => .malformed fault
  | .unsupported error => .unsupported error

def Failure.ofRange : OutOfRange → Failure
  | .outOfRange => .outOfRange

/-- The place that a failure names. A payload has one name for all of it. -/
def Failure.path? : Failure → Option Path
  | .malformed fault => some fault.path
  | .unsupported error => some error.path
  | .payload _ => some ⟨"config", []⟩
  | _ => none

def Failure.message : Failure → Text
  | .malformed fault => fault.message
  | .unsupported error => error.message
  | .payload error => "config: " ++ error.message
  | .registry error => error.message
  | .outOfRange => "int too large to convert to float"
  | .unknownName name => "no such node: " ++ name

end TickGraph
