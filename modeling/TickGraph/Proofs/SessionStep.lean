import TickGraph.Session

namespace TickGraph

/-- The name of the node that an action asks something of. -/
def Action.subject? : Action → Option String
  | .set name _ => some name
  | .update name => some name
  | .evaluate name => some name
  | .current name => some name
  | .compile name => some name
  | .call name => some name
  | .state name => some name
  | .references name => some name
  | .formula name => some name
  | .summary name => some name
  | _ => none

/-- Whether an action compiles the expression that it asks, if that has not happened yet. -/
def Action.compiles : Action → Bool
  | .update _ => true
  | .evaluate _ => true
  | .compile _ => true
  | _ => false

/-- Whether an action evaluates the expression that it asks and stores the result. -/
def Action.evaluates : Action → Bool
  | .update _ => true
  | .evaluate _ => true
  | _ => false

theorem Action.evaluates_of_light {action : Action} (light : action.compiles = false) :
    action.evaluates = false := by
  cases action with
  | update name => cases light
  | evaluate name => cases light
  | _ => rfl

/-- Whether an action changes what stands under tags. -/
def Action.rebinds : Action → Bool
  | .add _ _ => true
  | .remove _ => true
  | _ => false

/-- An expression that a step makes is not compiled and has no value yet. -/
def SessionNode.IsNew (node : SessionNode) : Prop :=
  ∀ linked made, node = .expression linked made →
    ∃ config source, made = ExpressionNode.create config source

/-- What a step can do. The cases follow what becomes of the nodes. In `kept` nothing changes, and
an action that asks a node consults nothing for it. In `rebound` a tag has the node it had before,
or one that has a name. -/
inductive Session.Transition (session : Session) (action : Action) : Prop
  | kept (same : (session.step action).session = session)
      (quiet : action.subject?.isSome → (session.step action).events = [])
      (idle : ∀ name id linked node, action.subject? = some name →
        session.find? name = some (id, .expression linked node) → action.compiles = false)
  | rebound (registry : Registry NodeId) (answer : Answer) (asked : action.subject? = none)
      (reply : session.step action =
        (⟨session.nodes, session.names, registry⟩ : Session).answer answer)
      (entries : ∀ tag id, registry.get? tag = some id → session.registry.get? tag = some id ∨
        ∃ name node, session.find? name = some (id, node))
  | created (name : String) (node : SessionNode) (answer : Answer) (new : node.IsNew)
      (asked : action.subject? = none) (still : action.rebinds = false)
      (reply : session.step action = (session.create name node).answer answer)
  | assigned (name : String) (id : NodeId) (old : Option Float) (x : Float) (number : Number)
      (asked : action = .set name number) (found : session.find? name = some (id, .value old))
      (reply : session.step action =
        (session.store id (.value (some x))).answer (.number (some x)))
  | called (name : String) (id : NodeId) (linked : Bool) (node : ExpressionNode NodeId)
      (asked : action = .call name) (found : session.find? name = some (id, .expression linked node))
      (reply : session.step action =
        session.observe (node.call? (session.world linked)) .number)
  | compiled (name : String) (id : NodeId) (linked : Bool) (node : ExpressionNode NodeId)
      (asked : action = .compile name)
      (found : session.find? name = some (id, .expression linked node))
      (reply : session.step action =
        ⟨session.store id (.expression linked (node.compile (session.world linked)).node),
          (node.compile (session.world linked)).events,
          (node.compile (session.world linked)).outcome.map fun made =>
            .compiled node.isCompiled made.root.formula made.references⟩)
  | evaluated (name : String) (id : NodeId) (linked : Bool) (node : ExpressionNode NodeId)
      (asked : action = .update name ∨ action = .evaluate name)
      (found : session.find? name = some (id, .expression linked node))
      (reply : session.step action =
        ⟨session.store id (.expression linked (node.evaluate (session.world linked)).node),
          (node.evaluate (session.world linked)).events,
          (node.evaluate (session.world linked)).outcome.map fun x => .number (some x)⟩)

theorem Session.transition_of_fail {session : Session} {action : Action} (failure : Failure)
    (reply : session.step action = session.fail failure) (light : action.compiles = false) :
    session.Transition action :=
  .kept (by rw [reply]; rfl) (fun _ => by rw [reply]; rfl) fun _ _ _ _ _ _ => light

theorem Session.transition_of_answer {session : Session} {action : Action} {answer : Answer}
    (reply : session.step action = session.answer answer) (light : action.compiles = false) :
    session.Transition action :=
  .kept (by rw [reply]; rfl) (fun _ => by rw [reply]; rfl) fun _ _ _ _ _ _ => light

theorem Session.inspect_session (session : Session) (name : String)
    (look : ExpressionNode NodeId → Except MalformedGraph Answer) :
    (session.inspect name look).session = session ∧ (session.inspect name look).events = [] := by
  unfold Session.inspect
  split <;> exact ⟨rfl, rfl⟩

theorem Session.transition_of_inspect {session : Session} {action : Action} {name : String}
    {look : ExpressionNode NodeId → Except MalformedGraph Answer}
    (reply : session.step action = session.inspect name look) (light : action.compiles = false) :
    session.Transition action := by
  obtain ⟨same, quiet⟩ := session.inspect_session name look
  exact .kept (by rw [reply]; exact same) (fun _ => by rw [reply]; exact quiet)
    fun _ _ _ _ _ _ => light

theorem Session.onExpression_of_found {α : Type} {session : Session} {name : String} {id : NodeId}
    {linked : Bool} {node : ExpressionNode NodeId}
    (found : session.find? name = some (id, .expression linked node))
    (operate : ExpressionNode NodeId → World NodeId → Pass NodeId α)
    (give : ExpressionNode NodeId → α → Answer) :
    session.onExpression name operate give =
      ⟨session.store id (.expression linked (operate node (session.world linked)).node),
        (operate node (session.world linked)).events,
        (operate node (session.world linked)).outcome.map (give node)⟩ := by
  unfold Session.onExpression
  rw [found]

theorem Session.onExpression_of_absent {α : Type} {session : Session} {name : String}
    (absent : ∀ id linked node, session.find? name ≠ some (id, .expression linked node))
    (operate : ExpressionNode NodeId → World NodeId → Pass NodeId α)
    (give : ExpressionNode NodeId → α → Answer) :
    session.onExpression name operate give = session.fail (.unknownName name) := by
  unfold Session.onExpression
  split
  · rename_i id linked node found
    exact absurd found (absent id linked node)
  · rfl

theorem Session.find?_expression_cases (session : Session) (name : String) :
    (∃ id linked node, session.find? name = some (id, .expression linked node)) ∨
      ∀ id linked node, session.find? name ≠ some (id, .expression linked node) := by
  by_cases exists_ : ∃ id linked node, session.find? name = some (id, .expression linked node)
  · exact Or.inl exists_
  · exact Or.inr fun id linked node found => exists_ ⟨id, linked, node, found⟩

theorem SessionNode.isNew_expression (linked : Bool) (config : Config) (source : Source) :
    (SessionNode.expression linked (ExpressionNode.create config source)).IsNew := by
  intro other made same
  cases same
  exact ⟨config, source, rfl⟩

theorem Session.transition_of_createExpression {session : Session} {action : Action} {name : String}
    {config : Config} {linked : Bool} {source : Source}
    (reply : session.step action = session.createExpression name config linked source)
    (asked : action.subject? = none) (still : action.rebinds = false) :
    session.Transition action :=
  .created name _ _ (SessionNode.isNew_expression linked config source) asked still reply

theorem Session.transition_of_absent {session : Session} {action : Action} {name : String}
    (asked : action.subject? = some name)
    (absent : ∀ id linked node, session.find? name ≠ some (id, .expression linked node))
    (reply : session.step action = session.fail (.unknownName name)) :
    session.Transition action := by
  refine .kept (by rw [reply]; rfl) (fun _ => by rw [reply]; rfl) ?_
  intro other id linked node same found
  rw [asked] at same
  cases same
  exact absurd found (absent id linked node)

theorem Session.transition (session : Session) (action : Action) : session.Transition action := by
  cases action with
  | newValue name value =>
    cases converted : value.mapM Number.toDouble with
    | ok x =>
      refine .created name (.value x) .done ?_ rfl rfl (by simp only [Session.step, converted])
      intro linked made same
      cases same
    | error error =>
      exact transition_of_fail (.ofRange error) (by simp only [Session.step, converted]) rfl
  | newValueless name =>
    refine .created name .valueless .done ?_ rfl rfl rfl
    intro linked made same
    cases same
  | newExpression name graph config linked readAtOnce =>
    cases readAtOnce with
    | false => exact transition_of_createExpression rfl rfl rfl
    | true =>
      cases read : Node.read graph Path.graph with
      | ok root =>
        have reply : session.step (.newExpression name graph config linked true) =
            session.createExpression name config linked (.tree root) := by
          simp only [Session.step, if_true, read]
        exact transition_of_createExpression reply rfl rfl
      | error fault =>
        exact transition_of_fail (.malformed fault) (by simp only [Session.step, if_true, read]) rfl
  | newConfigured name payload config linked =>
    cases given : payloadGraph payload with
    | ok graph =>
      have reply : session.step (.newConfigured name payload config linked) =
          session.createExpression name config linked (.wire graph) := by
        simp only [Session.step, given]
      exact transition_of_createExpression reply rfl rfl
    | error error =>
      exact transition_of_fail (.payload error) (by simp only [Session.step, given]) rfl
  | add tag name =>
    cases found : session.find? name with
    | none => exact transition_of_fail (.unknownName name) (by simp only [Session.step, found]) rfl
    | some entry =>
      obtain ⟨id, node⟩ := entry
      cases added : session.registry.add tag id with
      | ok registry =>
        refine .rebound registry (.found (some (id, node))) rfl
          (by simp only [Session.step, found, added]) ?_
        intro other target bound
        rw [Registry.get?_add added] at bound
        split at bound
        · cases bound
          exact Or.inr ⟨name, node, found⟩
        · exact Or.inl bound
      | error error =>
        exact transition_of_fail (.registry error) (by simp only [Session.step, found, added]) rfl
  | remove tag =>
    cases removed : session.registry.remove tag with
    | ok entry =>
      obtain ⟨id, registry⟩ := entry
      refine .rebound registry (.found (session.nodeAt id)) rfl
        (by simp only [Session.step, removed]) ?_
      intro other target bound
      rw [Registry.get?_remove removed] at bound
      split at bound
      · cases bound
      · exact Or.inl bound
    | error error =>
      exact transition_of_fail (.registry error) (by simp only [Session.step, removed]) rfl
  | get tag => exact transition_of_answer rfl rfl
  | lookup tag => exact .kept rfl (fun asked => by cases asked) fun _ _ _ _ _ _ => rfl
  | contains tag => exact transition_of_answer rfl rfl
  | tags => exact transition_of_answer rfl rfl
  | resolve tag linked => exact .kept rfl (fun asked => by cases asked) fun _ _ _ _ _ _ => rfl
  | set name value =>
    cases found : session.find? name with
    | none => exact transition_of_fail (.unknownName name) (by simp only [Session.step, found]) rfl
    | some entry =>
      obtain ⟨id, node⟩ := entry
      cases node with
      | value old =>
        cases converted : value.toDouble with
        | ok x =>
          exact .assigned name id old x value rfl found
            (by simp only [Session.step, found, converted])
        | error error =>
          exact transition_of_fail (.ofRange error)
            (by simp only [Session.step, found, converted]) rfl
      | valueless =>
        exact transition_of_fail (.unknownName name) (by simp only [Session.step, found]) rfl
      | expression linked node =>
        exact transition_of_fail (.unknownName name) (by simp only [Session.step, found]) rfl
  | update name =>
    rcases session.find?_expression_cases name with ⟨id, linked, node, found⟩ | absent
    · exact .evaluated name id linked node (Or.inl rfl) found (onExpression_of_found found _ _)
    · exact transition_of_absent rfl absent (onExpression_of_absent absent _ _)
  | evaluate name =>
    rcases session.find?_expression_cases name with ⟨id, linked, node, found⟩ | absent
    · exact .evaluated name id linked node (Or.inr rfl) found (onExpression_of_found found _ _)
    · exact transition_of_absent rfl absent (onExpression_of_absent absent _ _)
  | current name =>
    cases found : session.find? name with
    | none => exact transition_of_fail (.unknownName name) (by simp only [Session.step, found]) rfl
    | some entry =>
      obtain ⟨id, node⟩ := entry
      have reply : session.step (.current name) = session.answer (.number node.current) := by
        simp only [Session.step, found]
      exact transition_of_answer reply rfl
  | compile name =>
    rcases session.find?_expression_cases name with ⟨id, linked, node, found⟩ | absent
    · exact .compiled name id linked node rfl found (onExpression_of_found found _ _)
    · exact transition_of_absent rfl absent (onExpression_of_absent absent _ _)
  | call name =>
    rcases session.find?_expression_cases name with ⟨id, linked, node, found⟩ | absent
    · exact .called name id linked node rfl found (by simp only [Session.step, found])
    · refine transition_of_absent rfl absent ?_
      unfold Session.step
      dsimp only
      split
      · rename_i id linked node found
        exact absurd found (absent id linked node)
      · rfl
  | state name => exact transition_of_inspect rfl rfl
  | references name => exact transition_of_inspect rfl rfl
  | formula name => exact transition_of_inspect rfl rfl
  | summary name => exact transition_of_inspect rfl rfl

end TickGraph
