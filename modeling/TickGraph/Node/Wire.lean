import TickGraph.Node
import TickGraph.Number
import TickGraph.Path

namespace TickGraph

/-- What can be wrong with one node of a graph. -/
inductive Violation where
  | notObject (got : Json.Kind)
  | typeNotString
  | missing (field : Field)
  | othersNotList (got : Json.Kind)
  | valueNotNumber (got : Json.Kind)
  | valueOutOfRange (n : Int)
  | tagNotInteger (got : Json.Kind)
deriving DecidableEq, Inhabited

def Violation.text : Violation → String
  | .notObject got => "expected a node mapping, got " ++ got.name
  | .typeNotString => "missing or non-string 'type' field"
  | .missing field => "missing required field '" ++ field.name ++ "'"
  | .othersNotList got => "'others' must be a list, got " ++ got.name
  | .valueNotNumber got => "'value' must be a number, got " ++ got.name
  | .valueOutOfRange n => "'value' " ++ toString n ++ " is out of float range"
  | .tagNotInteger got => "'tag' must be an integer, got " ++ got.name

/-- A violation and the node that it was found at. -/
structure MalformedGraph where
  path : Path
  violation : Violation
deriving DecidableEq, Inhabited

def MalformedGraph.message (fault : MalformedGraph) : Text :=
  fault.path.render ++ ": " ++ fault.violation.text

/-- The double of a literal. -/
def literalValue : Json → Except Violation Float
  | .int n =>
    match (Number.int n).toDouble with
    | .ok x => .ok x
    | .error _ => .error (.valueOutOfRange n)
  | .float x => .ok x
  | d => .error (.valueNotNumber d.kind)

/-- The tag of a reference. A double that is a whole number will do. -/
def referenceTag : Json → Except Violation Int
  | .int n => .ok n
  | .float x =>
    match Double.toInt? x with
    | some n => .ok n
    | none => .error (.tagNotInteger .float)
  | d => .error (.tagNotInteger d.kind)

/-- A way to read graphs: what is done at each object on the way, and what becomes of a fault. -/
structure Reader (m : Type → Type) where
  enter : Path → Json → m Unit
  reject {α : Type} : MalformedGraph → m α

section Reading

variable {m : Type → Type} [Monad m]

/-- Reads a field of a leaf. -/
def Reader.leaf {α : Type} (reader : Reader m) (fields : Json.Fields) (field : Field) (path : Path)
    (read : Json → Except Violation α) : m α :=
  match fields.lookup field.key with
  | none => reader.reject ⟨path, .missing field⟩
  | some d =>
    match read d with
    | .ok x => pure x
    | .error violation => reader.reject ⟨path, violation⟩

/-- Reads a node of an operator from its fields, with the ways to read a child and the list of the
further operands. A statement keeps its fields. -/
def Reader.operator (reader : Reader m) (op : Operator) (fields : Json.Fields) (path : Path)
    (child : Field → m Node) (others : m (List Node)) : m Node :=
  match op with
  | .variadic op => do
    let a ← child .a
    let b ← child .b
    let others ← others
    pure (.variadic op a b others)
  | .unary op => do
    let v ← child .v
    pure (.unary op v)
  | .comparison op => do
    let left ← child .left
    let right ← child .right
    pure (.comparison op left right)
  | .reference => do
    let tag ← reader.leaf fields .tag path referenceTag
    pure (.reference tag)
  | .literal => do
    let x ← reader.leaf fields .value path literalValue
    pure (.number x)
  | .conditional => do
    let expr ← child .expr
    let ifNode ← child .ifNode
    let elseNode ← child .elseNode
    pure (.conditional expr ifNode elseNode)
  | .statement s => pure (.unsupported s.tag fields)

mutual

/-- Reads the expression that a JSON value writes. The `type` of a node is checked first, and then each
child is read completely before the next field is looked for, so of several faults the first in this
order is the one that is reported. -/
def Reader.node (reader : Reader m) : Json → Path → m Node
  | .obj fields, path => do
    reader.enter path (.obj fields)
    match fields.lookup Json.typeKey with
    | some (.str tag) =>
      match Operator.ofTag? tag with
      | some op =>
        reader.operator op fields path (fun field => reader.child field fields path)
          (reader.others fields path)
      | none => pure (.unsupported tag fields)
    | _ => reader.reject ⟨path, .typeNotString⟩
  | d, path => reader.reject ⟨path, .notObject d.kind⟩

def Reader.child (reader : Reader m) (field : Field) : Json.Fields → Path → m Node
  | [], path => reader.reject ⟨path, .missing field⟩
  | (name, d) :: rest, path =>
    if name = field.key then reader.node d (path.field field) else reader.child field rest path

/-- Reads the list under `others`. -/
def Reader.others (reader : Reader m) : Json.Fields → Path → m (List Node)
  | [], path => reader.reject ⟨path, .missing .others⟩
  | (name, d) :: rest, path =>
    if name = Field.others.key then
      match d with
      | .arr items => reader.items items 0 path
      | d => reader.reject ⟨path, .othersNotList d.kind⟩
    else reader.others rest path

/-- Reads the further operands from number `i` on. -/
def Reader.items (reader : Reader m) : List Json → Nat → Path → m (List Node)
  | [], _, _ => pure []
  | d :: rest, i, path => do
    let node ← reader.node d (path.other i)
    let nodes ← reader.items rest (i + 1) path
    pure (node :: nodes)

end

/-- Reading a child is a look under its name, and then a reading one step further down. -/
theorem Reader.child_eq (reader : Reader m) (field : Field) (fields : Json.Fields) (path : Path) :
    reader.child field fields path =
      match fields.lookup field.key with
      | none => reader.reject ⟨path, .missing field⟩
      | some d => reader.node d (path.field field) := by
  induction fields with
  | nil => simp only [Reader.child, List.lookup_nil]
  | cons entry rest ih =>
    obtain ⟨name, d⟩ := entry
    unfold Reader.child
    by_cases here : name = field.key
    · simp [here]
    · have other : (field.key == name) = false := beq_eq_false_iff_ne.mpr (Ne.symm here)
      simp only [here, if_false, List.lookup_cons, other]
      exact ih

theorem Reader.others_eq (reader : Reader m) (fields : Json.Fields) (path : Path) :
    reader.others fields path =
      match fields.lookup Field.others.key with
      | none => reader.reject ⟨path, .missing .others⟩
      | some (.arr items) => reader.items items 0 path
      | some d => reader.reject ⟨path, .othersNotList d.kind⟩ := by
  induction fields with
  | nil => simp only [Reader.others, List.lookup_nil]
  | cons entry rest ih =>
    obtain ⟨name, d⟩ := entry
    unfold Reader.others
    by_cases here : name = Field.others.key
    · cases d <;> simp [here]
    · have other : (Field.others.key == name) = false := beq_eq_false_iff_ne.mpr (Ne.symm here)
      simp only [here, if_false, List.lookup_cons, other]
      exact ih

end Reading

/-- Stops at the first fault, and keeps no record. -/
def Reader.plain : Reader (Except MalformedGraph) where
  enter _ _ := .ok ()
  reject := .error

def Node.read : Json → Path → Except MalformedGraph Node :=
  Reader.plain.node

@[simp] theorem Reader.plain_reject {α : Type} (fault : MalformedGraph) :
    (Reader.plain.reject fault : Except MalformedGraph α) = .error fault :=
  rfl

@[simp] theorem Reader.plain_node (d : Json) (path : Path) :
    Reader.plain.node d path = Node.read d path :=
  rfl

theorem Node.read_obj (fields : Json.Fields) (path : Path) :
    Node.read (.obj fields) path =
      match fields.lookup Json.typeKey with
      | some (.str tag) =>
        match Operator.ofTag? tag with
        | some op =>
          Reader.plain.operator op fields path (fun field => Reader.plain.child field fields path)
            (Reader.plain.others fields path)
        | none => .ok (.unsupported tag fields)
      | _ => .error ⟨path, .typeNotString⟩ := by
  unfold Node.read Reader.node
  rfl

theorem Node.read_typed {fields : Json.Fields} {op : Operator}
    (type : fields.lookup Json.typeKey = some (.str op.tag)) (path : Path) :
    Node.read (.obj fields) path =
      Reader.plain.operator op fields path (fun field => Reader.plain.child field fields path)
        (Reader.plain.others fields path) := by
  simp only [Node.read_obj, type, Operator.ofTag?_tag]

mutual

/-- Writes a tree. Supported nodes get the fields of their operator and no others; an unsupported
node gets back the fields it came with. -/
def Node.toJson : Node → Json
  | .number x => .obj [(Json.typeKey, .str Operator.literal.tag), (Field.value.key, .float x)]
  | .reference tag => .obj [(Json.typeKey, .str Operator.reference.tag), (Field.tag.key, .int tag)]
  | .variadic op a b others =>
    .obj [(Json.typeKey, .str op.tag), (Field.a.key, a.toJson), (Field.b.key, b.toJson),
      (Field.others.key, .arr (Node.toJsons others))]
  | .unary op v => .obj [(Json.typeKey, .str op.tag), (Field.v.key, v.toJson)]
  | .comparison op left right =>
    .obj [(Json.typeKey, .str op.tag), (Field.left.key, left.toJson), (Field.right.key, right.toJson)]
  | .conditional expr ifNode elseNode =>
    .obj [(Json.typeKey, .str Operator.conditional.tag), (Field.expr.key, expr.toJson),
      (Field.ifNode.key, ifNode.toJson), (Field.elseNode.key, elseNode.toJson)]
  | .unsupported tag [] => .obj [(Json.typeKey, .str tag)]
  | .unsupported _ (field :: rest) => .obj (field :: rest)

def Node.toJsons : List Node → List Json
  | [] => []
  | node :: rest => node.toJson :: Node.toJsons rest

end

end TickGraph
