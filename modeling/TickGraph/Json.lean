import TickGraph.Text

namespace TickGraph

/-- JSON values as they arrive in a graph. Integers and doubles stay apart, because a tag has to be an
integer and a literal may be either. An object keeps its fields in order. -/
inductive Json where
  | null
  | bool (b : Bool)
  | int (n : Int)
  | float (x : Float)
  | str (s : Text)
  | arr (items : List Json)
  | obj (fields : List (Text × Json))
deriving Inhabited

/-- The seven kinds of value that a message can name. -/
inductive Json.Kind where
  | null
  | bool
  | int
  | float
  | str
  | arr
  | obj
deriving DecidableEq, Inhabited

/-- The word for a kind in messages. -/
def Json.Kind.name : Json.Kind → String
  | .null => "NoneType"
  | .bool => "bool"
  | .int => "int"
  | .float => "float"
  | .str => "str"
  | .arr => "list"
  | .obj => "dict"

def Json.kind : Json → Json.Kind
  | .null => .null
  | .bool _ => .bool
  | .int _ => .int
  | .float _ => .float
  | .str _ => .str
  | .arr _ => .arr
  | .obj _ => .obj

/-- The field lists of objects. -/
abbrev Json.Fields : Type := List (Text × Json)

/-- The field that says what a node is. -/
def Json.typeKey : Text :=
  "type"

/-- Writes a field. A name that is there already keeps its place and takes the new value, so no
name ever stands twice. -/
def Json.Fields.put (name : Text) (value : Json) : Json.Fields → Json.Fields
  | [] => [(name, value)]
  | (other, old) :: rest =>
    if other = name then (name, value) :: rest else (other, old) :: Json.Fields.put name value rest

end TickGraph
