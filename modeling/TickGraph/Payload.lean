import TickGraph.Json

namespace TickGraph

inductive PayloadFault where
  | notObject
  | wrongType
  | graphMissing
  | graphNotObject
deriving DecidableEq, Inhabited, Repr

/-- The kind of a fault and the field it lies in. -/
def PayloadFault.detail : PayloadFault → String × List String
  | .notObject => ("model_type", [])
  | .wrongType => ("literal_error", ["type"])
  | .graphMissing => ("missing", ["graph"])
  | .graphNotObject => ("dict_type", ["graph"])

/-- All faults of a payload, in the order of its fields. -/
structure InvalidPayload where
  faults : List PayloadFault
deriving DecidableEq, Inhabited, Repr

def InvalidPayload.message (error : InvalidPayload) : String :=
  "invalid expression config: " ++ toString error.faults.length ++
    (if error.faults.length = 1 then " validation error" else " validation errors") ++
    " for ExpressionNodeConfig"

def graphKey : Text :=
  "graph"

def typeFaults (fields : Json.Fields) : List PayloadFault :=
  match fields.lookup Json.typeKey with
  | none => []
  | some (.str ⟨"expression", []⟩) => []
  | some _ => [.wrongType]

/-- The graph of a payload. Other fields than `type` and `graph` are left unread. -/
def payloadGraph : Json → Except InvalidPayload Json
  | .obj fields =>
    match fields.lookup graphKey, typeFaults fields with
    | some (.obj graph), [] => .ok (.obj graph)
    | some (.obj _), faults => .error ⟨faults⟩
    | some _, faults => .error ⟨faults ++ [.graphNotObject]⟩
    | none, faults => .error ⟨faults ++ [.graphMissing]⟩
  | _ => .error ⟨[.notObject]⟩

end TickGraph
