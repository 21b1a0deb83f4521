import TickGraph.Proofs.Refresh

namespace TickGraph

/-- Whether an action only looks at a session. -/
def Action.observes : Action → Bool
  | .get _ | .lookup _ | .contains _ | .tags | .resolve _ _ | .current _ | .call _ | .state _
  | .references _ | .formula _ | .summary _ => true
  | _ => false

/-- A node that compiles has its expression then, and the value that it had. -/
theorem ExpressionNode.node_compile_of_ok {H : Type} {node : ExpressionNode H} {world : World H}
    {expression : Compiled H} (made : (node.compile world).outcome = .ok expression) :
    (node.compile world).node = ⟨node.config, .compiled expression, node.value⟩ := by
  have advance := ExpressionNode.Advance.compile node world
  have held := ExpressionNode.lifecycle_compile made
  have config := advance.config
  have value := advance.value
  generalize (node.compile world).node = next at held config value
  cases next
  simp only at held config value
  rw [held, config, value]
  rfl

namespace Session

/-- Nothing is different but that there is one more node, which has this name now. -/
structure OneMore (session next : Session) (name : String) (node : SessionNode) : Prop where
  nodes : next.nodes = session.nodes ++ [node]
  names : ∀ other, next.names.lookup other =
    if other = name then some session.nodes.length else session.names.lookup other
  registry : next.registry = session.registry

/-- Nothing is different but what stands under the tags. -/
structure SameNodes (session next : Session) : Prop where
  nodes : next.nodes = session.nodes
  names : next.names = session.names

/-- Nothing is different but the node `id`. -/
structure SameBut (session next : Session) (id : NodeId) : Prop where
  nodes : ∀ other, other ≠ id → next.nodes[other]? = session.nodes[other]?
  names : next.names = session.names
  registry : next.registry = session.registry

/-- The change that an action makes when it succeeds. -/
def Effect (session next : Session) : Action → Prop
  | .newValue name value =>
    ∃ x, value.mapM Number.toDouble = .ok x ∧ session.OneMore next name (.value x)
  | .newValueless name => session.OneMore next name .valueless
  | .newExpression name graph config linked readAtOnce =>
    ∃ source : Source, (if readAtOnce then ∃ root, Node.read graph Path.graph = .ok root ∧
        source = .tree root else source = .wire graph) ∧
      session.OneMore next name (.expression linked (ExpressionNode.create config source))
  | .newConfigured name payload config linked =>
    ∃ graph, payloadGraph payload = .ok graph ∧
      session.OneMore next name (.expression linked (ExpressionNode.create config (.wire graph)))
  | .add tag name =>
    ∃ id node, session.find? name = some (id, node) ∧ session.SameNodes next ∧
      ∀ other, next.registry.get? other =
        if other = tag then some id else session.registry.get? other
  | .remove tag =>
    session.SameNodes next ∧
      ∀ other, next.registry.get? other = if other = tag then none else session.registry.get? other
  | .set name value =>
    ∃ id old x, session.find? name = some (id, .value old) ∧ value.toDouble = .ok x ∧
      session.SameBut next id ∧ next.nodes[id]? = some (.value (some x))
  | .compile name =>
    ∃ id linked node expression, session.find? name = some (id, .expression linked node) ∧
      session.SameBut next id ∧
      next.nodes[id]? = some (.expression linked ⟨node.config, .compiled expression, node.value⟩)
  | .update name | .evaluate name =>
    ∃ id linked node expression x, session.find? name = some (id, .expression linked node) ∧
      session.SameBut next id ∧
      next.nodes[id]? = some (.expression linked ⟨node.config, .compiled expression, x⟩)
  | .get _ | .lookup _ | .contains _ | .tags | .resolve _ _ | .current _ | .call _ | .state _
  | .references _ | .formula _ | .summary _ => next = session

variable {session : Session} {name : String} {id : NodeId} {linked : Bool}
  {node : ExpressionNode NodeId}

theorem oneMore_create (session : Session) (name : String) (node : SessionNode) :
    session.OneMore (session.create name node) name node := by
  refine ⟨rfl, ?_, rfl⟩
  intro other
  unfold create
  rw [List.lookup_cons]
  by_cases same : other = name
  · simp [same]
  · simp [beq_eq_false_iff_ne.mpr same, same]

theorem sameBut_store (session : Session) (id : NodeId) (node : SessionNode) :
    session.SameBut (session.store id node) id :=
  ⟨fun _ different => nodes_store_ne different, rfl, rfl⟩

/-- What is under the tags has no influence on what a name means, nor on the value of a node. -/
theorem SameNodes.find?_eq {next : Session} (same : session.SameNodes next) (name : String) :
    next.find? name = session.find? name := by
  unfold find? nodeAt
  rw [same.names, same.nodes]

/-- Looking changes nothing. -/
theorem session_of_observes (session : Session) {action : Action}
    (observes : action.observes = true) : (session.step action).session = session := by
  cases action with
  | get tag => rfl
  | lookup tag => rfl
  | contains tag => rfl
  | tags => rfl
  | resolve tag linked => rfl
  | current name =>
    simp only [step]
    split <;> rfl
  | call name =>
    simp only [step]
    split <;> rfl
  | state name => exact (session.inspect_session name _).1
  | references name => exact (session.inspect_session name _).1
  | formula name => exact (session.inspect_session name _).1
  | summary name => exact (session.inspect_session name _).1
  | _ => cases observes

theorem sameNodes_of_rebinds (session : Session) {action : Action}
    (rebinding : action.rebinds = true) : session.SameNodes (session.step action).session := by
  cases action with
  | add tag name =>
    simp only [step]
    split
    · exact ⟨rfl, rfl⟩
    · split <;> exact ⟨rfl, rfl⟩
  | remove tag =>
    simp only [step]
    split <;> exact ⟨rfl, rfl⟩
  | _ => cases rebinding

/-- A leaf has the present value of the node that it is bound to. -/
theorem leaf_eq_elim (mode : ReferenceMode) (before : World NodeId) (session : Session)
    (linked : Bool) :
    mode.leaf before (session.world linked) =
      fun tag => (mode.handle? before (session.world linked) tag).elim 0 session.scalar := by
  funext tag
  unfold ReferenceMode.leaf
  cases mode.handle? before (session.world linked) tag with
  | none => rfl
  | some id => exact session.value_world linked id

theorem step_evaluates {action : Action} (asked : action.subject? = some name)
    (evaluates : action.evaluates = true) :
    session.step action =
      session.onExpression name ExpressionNode.evaluate fun _ x => .number (some x) := by
  cases action with
  | update other => cases asked; rfl
  | evaluate other => cases asked; rfl
  | _ => cases evaluates

/-- An evaluation fails because the graph does not compile, or stores and answers what the expression
gives now. -/
theorem evaluation_cases {action : Action} (asked : action.subject? = some name)
    (evaluates : action.evaluates = true)
    (found : session.find? name = some (id, .expression linked node)) (genuine : node.Genuine) :
    (∃ failure, node.Refuses (session.world linked) failure ∧
      (session.step action).outcome = .error failure) ∨
    ∃ expression x, (node.compile (session.world linked)).outcome = .ok expression ∧
      (expression.call (session.world linked)).outcome = .ok x ∧
      (session.step action).outcome = .ok (.number (some x)) ∧
      (session.step action).session =
        session.store id (.expression linked ⟨node.config, .compiled expression, x⟩) := by
  rw [step_evaluates asked evaluates, onExpression_of_found found]
  cases made : (node.compile (session.world linked)).outcome with
  | error failure =>
    rw [ExpressionNode.evaluate_of_error made]
    exact Or.inl ⟨failure, ExpressionNode.compile_error_iff.mp made, rfl⟩
  | ok expression =>
    obtain ⟨x, value⟩ := Session.callable genuine made
    rw [ExpressionNode.evaluate_of_ok made value]
    exact Or.inr ⟨expression, x, rfl, value, rfl, rfl⟩

theorem effect_set {value : Number} {answer : Answer}
    (succeeded : (session.step (.set name value)).outcome = .ok answer) :
    session.Effect (session.step (.set name value)).session (.set name value) := by
  unfold step at succeeded ⊢
  dsimp only at succeeded ⊢
  split at succeeded
  · rename_i id old found
    cases converted : value.toDouble with
    | error error =>
      rw [converted] at succeeded
      cases succeeded
    | ok x =>
      obtain ⟨_, present⟩ := find?_eq_some_iff.mp found
      exact ⟨id, old, x, found, converted, session.sameBut_store id _, nodes_store_self present⟩
  · cases succeeded

theorem effect_compile {answer : Answer}
    (succeeded : (session.step (.compile name)).outcome = .ok answer) :
    session.Effect (session.step (.compile name)).session (.compile name) := by
  rcases session.find?_expression_cases name with ⟨id, linked, node, found⟩ | absent
  · obtain ⟨_, present⟩ := find?_eq_some_iff.mp found
    simp only [step, onExpression_of_found found] at succeeded ⊢
    cases made : (node.compile (session.world linked)).outcome with
    | error failure =>
      rw [made] at succeeded
      cases succeeded
    | ok expression =>
      refine ⟨id, linked, node, expression, found, session.sameBut_store id _, ?_⟩
      rw [nodes_store_self present, ExpressionNode.node_compile_of_ok made]
  · simp only [step, onExpression_of_absent absent] at succeeded
    cases succeeded

/-- The lines about compilations that an evaluation logs are about the node that it evaluates. -/
theorem lines_evaluation {action : Action} (asked : action.subject? = some name)
    (evaluates : action.evaluates = true)
    (found : session.find? name = some (id, .expression linked node)) (genuine : node.Genuine) :
    (session.step action).events.filterMap Event.compiled? =
      (node.compilation? (session.world linked)).toList.map Compiled.root := by
  rw [step_evaluates asked evaluates, onExpression_of_found found]
  exact (ExpressionNode.Advance.evaluate genuine (session.world linked)).lines

end Session

/-- The latest result of a node in a history, and zero before the first one. -/
def lastResult (history : List Moment) (id : NodeId) : Float :=
  (history.filterMap (Moment.result? · id)).head?.getD 0

section Reach

variable {history : List Moment} {session : Session} (reach : SessionReach history session)

include reach

/-- What others read of an expression is the result of its last evaluation. -/
theorem SessionReach.scalar_of_expression {id : NodeId} {linked : Bool}
    {node : ExpressionNode NodeId} (present : session.nodes[id]? = some (.expression linked node)) :
    session.scalar id = lastResult history id := by
  unfold Session.scalar
  rw [present]
  exact (reach.recorded present).value

/-- What a node compiles to is compiled now, or was compiled at some moment of the run. -/
theorem SessionReach.compiled_at {id : NodeId} {linked : Bool} {node : ExpressionNode NodeId}
    {expression : Compiled NodeId} (present : session.nodes[id]? = some (.expression linked node))
    (made : (node.compile (session.world linked)).outcome = .ok expression) :
    ∃ before : Session, (node.isCompiled = false → before = session) ∧
      (node.isCompiled = true →
        ∃ moment ∈ history, moment.session = before ∧ moment.compiled? id = some expression) ∧
      ∃ source, (compile node.config (before.world linked) source).outcome = .ok expression := by
  unfold ExpressionNode.isCompiled
  rcases ExpressionNode.compile_ok_cases made with held | ⟨source, held, success⟩
  · obtain ⟨moment, member, compiled, source, success⟩ :=
      (reach.recorded present).origin expression held
    rw [held]
    refine ⟨moment.session, ?_, fun _ => ⟨moment, member, rfl, compiled⟩, source, success⟩
    intro uncompiled
    cases uncompiled
  · rw [held]
    refine ⟨session, fun _ => rfl, ?_, source, success⟩
    intro compiled
    cases compiled

theorem SessionReach.effect_evaluates {action : Action} {name : String} {answer : Answer}
    (asked : action.subject? = some name) (evaluates : action.evaluates = true)
    (succeeded : (session.step action).outcome = .ok answer) :
    session.Effect (session.step action).session (.evaluate name) := by
  rcases session.find?_expression_cases name with ⟨id, linked, node, found⟩ | absent
  · obtain ⟨_, present⟩ := Session.find?_eq_some_iff.mp found
    rcases Session.evaluation_cases asked evaluates found (reach.genuine id linked node present) with
      ⟨failure, _, failed⟩ | ⟨expression, x, _, _, _, stored⟩
    · cases failed.symm.trans succeeded
    · rw [stored]
      exact ⟨id, linked, node, expression, x, found, session.sameBut_store id _,
        Session.nodes_store_self present⟩
  · rw [Session.step_evaluates asked evaluates, Session.onExpression_of_absent absent] at succeeded
    cases succeeded

/-- A step that succeeds makes the change of its action. -/
theorem SessionReach.effect {action : Action} {answer : Answer}
    (succeeded : (session.step action).outcome = .ok answer) :
    session.Effect (session.step action).session action := by
  cases action with
  | newValue name value =>
    cases converted : value.mapM Number.toDouble with
    | ok x =>
      simp only [Session.step, converted, Session.Effect]
      exact ⟨x, rfl, session.oneMore_create name (.value x)⟩
    | error error =>
      simp only [Session.step, converted] at succeeded
      cases succeeded
  | newValueless name => exact session.oneMore_create name .valueless
  | newExpression name graph config linked readAtOnce =>
    cases readAtOnce with
    | false => exact ⟨.wire graph, rfl, session.oneMore_create name _⟩
    | true =>
      cases read : Node.read graph Path.graph with
      | ok root =>
        simp only [Session.step, if_true, read, Session.Effect]
        exact ⟨.tree root, ⟨root, rfl, rfl⟩, session.oneMore_create name _⟩
      | error fault =>
        simp only [Session.step, if_true, read] at succeeded
        cases succeeded
  | newConfigured name payload config linked =>
    cases given : payloadGraph payload with
    | ok graph =>
      simp only [Session.step, given, Session.Effect]
      exact ⟨graph, rfl, session.oneMore_create name _⟩
    | error error =>
      simp only [Session.step, given] at succeeded
      cases succeeded
  | add tag name =>
    cases found : session.find? name with
    | none =>
      simp only [Session.step, found] at succeeded
      cases succeeded
    | some entry =>
      obtain ⟨id, node⟩ := entry
      cases added : session.registry.add tag id with
      | ok registry =>
        simp only [Session.step, found, added, Session.Effect]
        exact ⟨id, node, rfl, ⟨rfl, rfl⟩, Registry.get?_add added⟩
      | error error =>
        simp only [Session.step, found, added] at succeeded
        cases succeeded
  | remove tag =>
    cases removed : session.registry.remove tag with
    | ok entry =>
      obtain ⟨id, registry⟩ := entry
      simp only [Session.step, removed, Session.Effect]
      exact ⟨⟨rfl, rfl⟩, Registry.get?_remove removed⟩
    | error error =>
      simp only [Session.step, removed] at succeeded
      cases succeeded
  | set name value => exact Session.effect_set succeeded
  | compile name => exact Session.effect_compile succeeded
  | update name => exact reach.effect_evaluates rfl rfl succeeded
  | evaluate name => exact reach.effect_evaluates rfl rfl succeeded
  | _ => exact Session.session_of_observes session rfl

end Reach

/-- What a step changes in a session that a run has reached. One that fails changes nothing, and one
that succeeds makes the change of its action: it adds a node, or it changes what stands under one tag,
or it changes the one node that it asks, or it changes nothing. After adding and removing tags every
name means the node that it meant, and every node has the value that it had.

An evaluation compiles no other node. It fails if the graph of its node does not compile, and else it
stores the meaning of the tree over the values that the nodes under its references have before the
step. The value of an expression among them is its last result, and zero before the first, even if
that expression refers to the one that is evaluated, or is the same. -/
theorem SessionReach.step_frame {history : List Moment} {session : Session}
    (reach : SessionReach history session) (action : Action) :
    let reply := session.step action
    (∀ failure, reply.outcome = .error failure → reply.session = session) ∧
    (∀ answer, reply.outcome = .ok answer → session.Effect reply.session action) ∧
    (action.rebinds = true → (∀ name, reply.session.find? name = session.find? name) ∧
      ∀ id, reply.session.scalar id = session.scalar id) ∧
    (∀ (other : NodeId) (linked : Bool) (node : ExpressionNode NodeId),
      session.nodes[other]? = some (.expression linked node) →
        session.scalar other = lastResult history other) ∧
    ∀ name id linked node, action.subject? = some name → action.evaluates = true →
      session.find? name = some (id, .expression linked node) →
        reply.events.filterMap Event.compiled? =
          (node.compilation? (session.world linked)).toList.map Compiled.root ∧
        ((∃ failure, node.Refuses (session.world linked) failure ∧
            reply.outcome = .error failure) ∨
          ∃ expression before,
            (node.compile (session.world linked)).outcome = .ok expression ∧
            (node.isCompiled = false → before = session) ∧
            (node.isCompiled = true → ∃ moment ∈ history, moment.session = before ∧
              moment.compiled? id = some expression) ∧
            let value := expression.root.meaning fun tag =>
              (node.config.mode.handle? (before.world linked) (session.world linked) tag).elim 0
                session.scalar
            reply.outcome = .ok (.number (some value)) ∧
            reply.session =
              session.store id (.expression linked ⟨node.config, .compiled expression, value⟩)) := by
  intro reply
  refine ⟨?_, ?_, ?_, ?_, ?_⟩
  · intro failure failed
    exact reach.session_of_error failed
  · intro answer succeeded
    exact reach.effect succeeded
  · intro rebinding
    have same : session.SameNodes reply.session := Session.sameNodes_of_rebinds session rebinding
    exact ⟨same.find?_eq, Session.scalar_congr same.nodes⟩
  · intro other linked node present
    exact reach.scalar_of_expression present
  · intro name id linked node asked evaluates found
    obtain ⟨_, present⟩ := Session.find?_eq_some_iff.mp found
    have genuine := reach.genuine id linked node present
    refine ⟨Session.lines_evaluation asked evaluates found genuine, ?_⟩
    rcases Session.evaluation_cases asked evaluates found genuine with
      refused | ⟨expression, x, made, value, answered, stored⟩
    · exact Or.inl refused
    · obtain ⟨before, fresh, kept, source, success⟩ := reach.compiled_at present made
      refine Or.inr ⟨expression, before, made, fresh, kept, ?_⟩
      have called := Session.call_of_compile success session linked
      rw [Session.leaf_eq_elim] at called
      cases Except.ok.inj (value.symm.trans called)
      exact ⟨answered, stored⟩

/-- Two expressions refer to each other, and the second one to itself as well. -/
theorem SessionReach.step_frame_circular :
    let reference (tag : Int) : Json := .obj [("type", .str "value"), ("tag", .int tag)]
    let graph : Json := .obj [("type", .str "add"), ("a", reference 1), ("b", reference 2),
      ("others", .arr [])]
    let left : ExpressionNode NodeId :=
      ⟨Config.standard, .compiled ⟨.reference 2, .captured 2 1⟩, 0⟩
    let right : ExpressionNode NodeId := ⟨Config.standard, .uncompiled (.wire graph), 0⟩
    let session : Session := ⟨[.expression true left, .expression true right],
      [("right", 1), ("left", 0)], ⟨[(1, 0), (2, 1)]⟩⟩
    let next := (session.step (.update "right")).session
    ∃ history, SessionReach history session ∧
      (session.SameBut next 1 ∧ next.nodes[0]? = session.nodes[0]?) ∧
      (session.scalar 0 = lastResult history 0 ∧ session.scalar 1 = lastResult history 1) ∧
      (session.step (.update "right")).outcome =
        .ok (.number (some (VariadicOp.add.apply (session.scalar 0) (session.scalar 1)))) := by
  intro reference graph left right session next
  have reach : SessionReach _ session := SessionReach.start
    |>.next (.newExpression "left" (reference 2) Config.standard true false)
    |>.next (.newExpression "right" graph Config.standard true false)
    |>.next (.add 1 "left")
    |>.next (.add 2 "right")
    |>.next (.update "left")
  have found : session.find? "right" = some (1, .expression true right) := rfl
  have compiles : (right.compile (session.world true)).outcome =
      .ok ⟨.variadic .add (.reference 1) (.reference 2) [],
        .variadic .add (.captured 1 0) (.captured 2 1) []⟩ := rfl
  obtain ⟨_, effect, _, values, evaluation⟩ := reach.step_frame (.update "right")
  have values : session.scalar 0 = lastResult _ 0 ∧ session.scalar 1 = lastResult _ 1 :=
    ⟨values 0 true left rfl, values 1 true right rfl⟩
  rcases (evaluation "right" 1 true right rfl rfl found).2 with
    ⟨failure, refused, _⟩ | ⟨expression, before, made, fresh, _, answered, _⟩
  · cases compiles.symm.trans (ExpressionNode.compile_error_iff.mpr refused)
  · cases compiles.symm.trans made
    have now : before = session := fresh rfl
    subst before
    obtain ⟨id, linked, node, compiled, x, named, same, _⟩ := effect _ answered
    cases found.symm.trans named
    exact ⟨_, reach, ⟨same, same.nodes 0 (by decide)⟩, values, answered⟩

end TickGraph
