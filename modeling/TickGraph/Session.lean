import TickGraph.ExpressionNode

namespace TickGraph

/-- Nodes keep their identity whatever tag or name they go by. -/
abbrev NodeId : Type := Nat

/-- A node of a session: a value that can be set, a node that produces no value, or an expression,
which looks its references up in the registry if it is `linked`. -/
inductive SessionNode where
  | value (x : Option Float)
  | valueless
  | expression (linked : Bool) (node : ExpressionNode NodeId)
deriving Inhabited

/-- The value that others read; an expression has that of its last evaluation. -/
def SessionNode.current : SessionNode → Option Float
  | .value x => x
  | .valueless => none
  | .expression _ node => some node.value

structure Session where
  nodes : List SessionNode
  names : List (String × NodeId)
  registry : Registry NodeId
deriving Inhabited

/-- What a session can be asked to do. -/
inductive Action where
  | newValue (name : String) (value : Option Number)
  | newValueless (name : String)
  | newExpression (name : String) (graph : Json) (config : Config) (linked readAtOnce : Bool)
  | newConfigured (name : String) (payload : Json) (config : Config) (linked : Bool)
  | add (tag : Int) (name : String)
  | remove (tag : Int)
  | get (tag : Int)
  | lookup (tag : Int)
  | contains (tag : Int)
  | tags
  | resolve (tag : Int) (linked : Bool)
  | set (name : String) (value : Number)
  | update (name : String)
  | evaluate (name : String)
  | current (name : String)
  | compile (name : String)
  | call (name : String)
  | state (name : String)
  | references (name : String)
  | formula (name : String)
  | summary (name : String)
deriving Inhabited

inductive Answer where
  | done
  | number (x : Option Float)
  | truth (b : Bool)
  | text (s : Option Text)
  | found (entry : Option (NodeId × SessionNode))
  | tags (ts : List Int)
  | references (ts : List Int)
  | compiled (same : Bool) (formula : Text) (references : List Int)
  | state (compiled : Bool)
deriving Inhabited

/-- What a step leaves behind: the session, what was consulted and reported, and an answer. -/
structure Reply where
  session : Session
  events : List Event
  outcome : Except Failure Answer

def Reply.notices (reply : Reply) : List Notice :=
  reply.events.filterMap Event.notice?

namespace Session

def empty : Session :=
  ⟨[], [], Registry.empty⟩

/-- Adds a node under a name. A name that was used before now means the new node. -/
def create (session : Session) (name : String) (node : SessionNode) : Session :=
  ⟨session.nodes ++ [node], (name, session.nodes.length) :: session.names, session.registry⟩

/-- A node with its identity. -/
def nodeAt (session : Session) (id : NodeId) : Option (NodeId × SessionNode) :=
  session.nodes[id]?.map fun node => (id, node)

def find? (session : Session) (name : String) : Option (NodeId × SessionNode) :=
  match session.names.lookup name with
  | none => none
  | some id => session.nodeAt id

def store (session : Session) (id : NodeId) (node : SessionNode) : Session :=
  ⟨session.nodes.set id node, session.names, session.registry⟩

/-- What the registry holds under a tag, as expressions see it. -/
def entry (session : Session) (tag : Int) : Entry NodeId :=
  match session.registry.get? tag with
  | none => .missing
  | some id =>
    match session.nodes[id]? with
    | none => .missing
    | some .valueless => .valueless
    | some _ => .handle id

def read (session : Session) (id : NodeId) : Option Number :=
  (session.nodes[id]?.bind SessionNode.current).map Number.float

/-- The outside that an expression of this session consults. -/
def world (session : Session) (linked : Bool) : World NodeId where
  lookup := if linked then some session.entry else none
  read := session.read

def answer (session : Session) (answer : Answer) : Reply :=
  ⟨session, [], .ok answer⟩

def fail (session : Session) (failure : Failure) : Reply :=
  ⟨session, [], .error failure⟩

/-- The answer of a computation that leaves the session as it is. -/
def observe {α : Type} (session : Session) (run : Traced OutOfRange α) (give : α → Answer) :
    Reply :=
  ⟨session, run.events, (run.outcome.mapError Failure.ofRange).map give⟩

/-- Runs an operation on the expression of a name, and stores what becomes of it. -/
def onExpression {α : Type} (session : Session) (name : String)
    (operate : ExpressionNode NodeId → World NodeId → Pass NodeId α)
    (give : ExpressionNode NodeId → α → Answer) : Reply :=
  match session.find? name with
  | some (id, .expression linked node) =>
    let pass := operate node (session.world linked)
    ⟨session.store id (.expression linked pass.node), pass.events, pass.outcome.map (give node)⟩
  | _ => session.fail (.unknownName name)

/-- The answer of a look at the expression of a name. -/
def inspect (session : Session) (name : String)
    (look : ExpressionNode NodeId → Except MalformedGraph Answer) : Reply :=
  match session.find? name with
  | some (_, .expression _ node) => ⟨session, [], (look node).mapError Failure.malformed⟩
  | _ => session.fail (.unknownName name)

def createExpression (session : Session) (name : String) (config : Config) (linked : Bool)
    (source : Source) : Reply :=
  let node := ExpressionNode.create config source
  (session.create name (.expression linked node)).answer (.text (some node.summary))

/-- One step. -/
def step (session : Session) : Action → Reply
  | .newValue name value =>
    match value.mapM Number.toDouble with
    | .ok x => (session.create name (.value x)).answer .done
    | .error error => session.fail (Failure.ofRange error)
  | .newValueless name => (session.create name .valueless).answer .done
  | .newExpression name graph config linked readAtOnce =>
    if readAtOnce then
      match Node.read graph Path.graph with
      | .ok root => session.createExpression name config linked (.tree root)
      | .error fault => session.fail (.malformed fault)
    else session.createExpression name config linked (.wire graph)
  | .newConfigured name payload config linked =>
    match payloadGraph payload with
    | .ok graph => session.createExpression name config linked (.wire graph)
    | .error error => session.fail (.payload error)
  | .add tag name =>
    match session.find? name with
    | none => session.fail (.unknownName name)
    | some (id, node) =>
      match session.registry.add tag id with
      | .ok registry => (⟨session.nodes, session.names, registry⟩ : Session).answer (.found (some (id, node)))
      | .error error => session.fail (.registry error)
  | .remove tag =>
    match session.registry.remove tag with
    | .ok (id, registry) =>
      (⟨session.nodes, session.names, registry⟩ : Session).answer (.found (session.nodeAt id))
    | .error error => session.fail (.registry error)
  | .get tag =>
    session.answer (.found ((session.registry.get? tag).bind session.nodeAt))
  | .lookup tag =>
    session.observe ((session.world true).find tag) fun id => .found (id.bind session.nodeAt)
  | .contains tag => session.answer (.truth (session.registry.contains tag))
  | .tags => session.answer (.tags session.registry.tags)
  | .resolve tag linked =>
    session.observe ((session.world linked).find tag) fun id =>
      .number (id.bind fun id => session.nodes[id]?.bind SessionNode.current)
  | .set name value =>
    match session.find? name with
    | some (id, .value _) =>
      match value.toDouble with
      | .ok x => (session.store id (.value (some x))).answer (.number (some x))
      | .error error => session.fail (Failure.ofRange error)
    | _ => session.fail (.unknownName name)
  | .update name => session.onExpression name ExpressionNode.evaluate fun _ x => .number (some x)
  | .evaluate name => session.onExpression name ExpressionNode.evaluate fun _ x => .number (some x)
  | .current name =>
    match session.find? name with
    | some (_, node) => session.answer (.number node.current)
    | none => session.fail (.unknownName name)
  | .compile name =>
    session.onExpression name ExpressionNode.compile fun before expression =>
      .compiled before.isCompiled expression.root.formula expression.references
  | .call name =>
    match session.find? name with
    | some (_, .expression linked node) =>
      session.observe (node.call? (session.world linked)) .number
    | _ => session.fail (.unknownName name)
  | .state name => session.inspect name fun node => .ok (.state node.isCompiled)
  | .references name => session.inspect name fun node => node.references.map .references
  | .formula name => session.inspect name fun node => .ok (.text node.formula?)
  | .summary name => session.inspect name fun node => .ok (.text (some node.summary))

/-- The replies to a list of actions, each on the session that the one before left. -/
def run (session : Session) : List Action → List Reply
  | [] => []
  | action :: rest =>
    let reply := session.step action
    reply :: reply.session.run rest

end Session

end TickGraph
