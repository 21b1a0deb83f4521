import TickGraph.Proofs.BindingTime
import TickGraph.Proofs.Lifecycle

namespace TickGraph

/-- Whether an action compiles, evaluates or calls the expression that it asks. -/
def Action.runs : Action → Bool
  | .call _ => true
  | action => action.compiles

namespace ExpressionNode

variable {H : Type} {node : ExpressionNode H} {world : World H} {failure : Failure}

/-- The node is not compiled, and compiling its graph now ends in this failure. -/
def Refuses (node : ExpressionNode H) (world : World H) (failure : Failure) : Prop :=
  ∃ source error, node.lifecycle = .uncompiled source ∧
    (TickGraph.compile node.config world source).outcome = .error error ∧
    failure = .ofCompile error

theorem compile_error_iff :
    (node.compile world).outcome = .error failure ↔ node.Refuses world failure := by
  unfold Refuses
  cases held : node.lifecycle with
  | compiled expression =>
    rw [compile_of_compiled held]
    simp
  | uncompiled source =>
    cases outcome : (TickGraph.compile node.config world source).outcome with
    | ok expression =>
      rw [compile_of_success held outcome]
      simp [outcome]
    | error error =>
      rw [compile_of_failure held outcome]
      simp [outcome, eq_comm]

/-- A compilation that fails leaves the node as it is. -/
theorem node_compile_of_refuses (refuses : node.Refuses world failure) :
    (node.compile world).node = node := by
  obtain ⟨source, error, held, failed, _⟩ := refuses
  rw [compile_of_failure held failed]

/-- Where everything that compiles can be called, an evaluation fails for no other reason than that
the graph does not compile. -/
theorem evaluate_error_iff
    (callable : ∀ expression, (node.compile world).outcome = .ok expression →
      ∃ x, (expression.call world).outcome = .ok x) :
    (node.evaluate world).outcome = .error failure ↔ node.Refuses world failure := by
  rw [← compile_error_iff]
  cases made : (node.compile world).outcome with
  | error other =>
    rw [evaluate_of_error made]
    simp only [Except.error.injEq]
  | ok expression =>
    obtain ⟨x, value⟩ := callable expression made
    rw [evaluate_of_ok made value]
    simp

theorem node_evaluate_of_refuses (refuses : node.Refuses world failure) :
    (node.evaluate world).node = node := by
  rw [evaluate_of_error (compile_error_iff.mpr refuses)]
  exact node_compile_of_refuses refuses

end ExpressionNode

/-- In a session everything that compiles can be called, for all values are doubles. -/
theorem Session.callable {session : Session} {linked : Bool} {node : ExpressionNode NodeId}
    (genuine : node.Genuine) {expression : Compiled NodeId}
    (made : (node.compile (session.world linked)).outcome = .ok expression) :
    ∃ x, (expression.call (session.world linked)).outcome = .ok x := by
  have compiling := ExpressionNode.Advance.compile node (session.world linked)
  have held := ExpressionNode.lifecycle_compile made
  obtain ⟨before, source, success⟩ := compiling.genuine genuine expression held
  exact ⟨_, Session.call_of_compile success session linked⟩

theorem Session.call?_ok (session : Session) (linked : Bool) {node : ExpressionNode NodeId}
    (genuine : node.Genuine) : ∃ x, (node.call? (session.world linked)).outcome = .ok x := by
  unfold ExpressionNode.call?
  cases held : node.lifecycle with
  | uncompiled source => exact ⟨none, rfl⟩
  | compiled expression =>
    obtain ⟨before, source, success⟩ := genuine expression held
    have value := Session.call_of_compile success session linked
    dsimp only
    rw [Traced.bind_of_ok _ value]
    exact ⟨_, rfl⟩

/-- Putting a node back into its place changes nothing. -/
theorem Session.store_self {session : Session} {id : NodeId} {node : SessionNode}
    (held : session.nodes[id]? = some node) : session.store id node = session := by
  obtain ⟨bound, same⟩ := List.getElem?_eq_some_iff.mp held
  unfold Session.store
  rw [← same, List.set_getElem_self]

theorem Session.outcome_call {session : Session} {name : String} {id : NodeId} {linked : Bool}
    {node : ExpressionNode NodeId} (found : session.find? name = some (id, .expression linked node))
    (genuine : node.Genuine) : ∃ answer, (session.step (.call name)).outcome = .ok answer := by
  obtain ⟨x, value⟩ := session.call?_ok linked genuine
  refine ⟨.number x, ?_⟩
  simp only [Session.step, found, Session.observe, value]
  rfl

theorem Except.map_eq_error_iff {ε α β : Type} {f : α → β} {outcome : Except ε α} {error : ε} :
    outcome.map f = .error error ↔ outcome = .error error := by
  cases outcome <;> simp [Except.map]

/-- A step that compiles, evaluates or calls an expression fails exactly if it wants the expression
compiled and the graph refuses; a call wants nothing. -/
theorem SessionReach.fails_iff {history : List Moment} {session : Session}
    (reach : SessionReach history session) {action : Action} {name : String} {id : NodeId}
    {linked : Bool} {node : ExpressionNode NodeId} (asked : action.subject? = some name)
    (runs : action.runs = true) (found : session.find? name = some (id, .expression linked node))
    (failure : Failure) :
    (session.step action).outcome = .error failure ↔
      action.compiles = true ∧ node.Refuses (session.world linked) failure := by
  have genuine := (reach.recorded (Session.nodes_of_find? found)).genuine
  have evaluation := @ExpressionNode.evaluate_error_iff _ node (session.world linked) failure
    fun _ made => Session.callable genuine made
  cases action with
  | update other =>
    cases asked
    simp only [Session.step, Session.onExpression_of_found found, Except.map_eq_error_iff,
      evaluation, Action.compiles, true_and]
  | evaluate other =>
    cases asked
    simp only [Session.step, Session.onExpression_of_found found, Except.map_eq_error_iff,
      evaluation, Action.compiles, true_and]
  | compile other =>
    cases asked
    simp only [Session.step, Session.onExpression_of_found found, Except.map_eq_error_iff,
      ExpressionNode.compile_error_iff, Action.compiles, true_and]
  | call other =>
    cases asked
    obtain ⟨answer, answered⟩ := Session.outcome_call found genuine
    simp [answered, Action.compiles]
  | _ => cases runs

/-- A step that fails leaves the session as it was. -/
theorem SessionReach.session_of_error {history : List Moment} {session : Session}
    (reach : SessionReach history session) {action : Action} {failure : Failure}
    (failed : (session.step action).outcome = .error failure) :
    (session.step action).session = session := by
  cases session.transition action with
  | kept same quiet idle => exact same
  | rebound registry answer asked reply =>
    rw [reply] at failed
    cases failed
  | created name node answer new asked still reply =>
    rw [reply] at failed
    cases failed
  | assigned name id old x number asked found reply =>
    rw [reply] at failed
    cases failed
  | called name id linked node asked found reply => rw [reply]; rfl
  | compiled name id linked node asked found reply =>
    have named : action.subject? = some name := by rw [asked]; rfl
    have refuses := ((reach.fails_iff named (by rw [asked]; rfl) found failure).mp failed).2
    rw [reply, ExpressionNode.node_compile_of_refuses refuses]
    exact Session.store_self (Session.nodes_of_find? found)
  | evaluated name id linked node asked found reply =>
    have named : action.subject? = some name := by rcases asked with asked | asked <;> rw [asked] <;> rfl
    have runs : action.runs = true := by rcases asked with asked | asked <;> rw [asked] <;> rfl
    have refuses := ((reach.fails_iff named runs found failure).mp failed).2
    rw [reply, ExpressionNode.node_evaluate_of_refuses refuses]
    exact Session.store_self (Session.nodes_of_find? found)

theorem SessionReach.succeeds_of_compiled {history : List Moment} {session : Session}
    (reach : SessionReach history session) {action : Action} {name : String} {id : NodeId}
    {linked : Bool} {node : ExpressionNode NodeId} {expression : Compiled NodeId}
    (held : node.lifecycle = .compiled expression) (asked : action.subject? = some name)
    (runs : action.runs = true) (found : session.find? name = some (id, .expression linked node)) :
    ∃ answer, (session.step action).outcome = .ok answer := by
  cases outcome : (session.step action).outcome with
  | ok answer => exact ⟨answer, rfl⟩
  | error failure =>
    obtain ⟨_, source, _, uncompiled, _⟩ := (reach.fails_iff asked runs found failure).mp outcome
    cases held.symm.trans uncompiled

/-- In every state that a run reaches, a step that fails leaves the whole session as it was: the
registry, the names and every node with its lifecycle and its value. A step that compiles, evaluates
or calls an expression fails exactly if it wants the expression compiled, this has not happened yet
and the graph does not compile now. So once an expression is compiled, none of these steps fails on it
in any later state of the run. -/
theorem SessionReach.failure_atomic {history : List Moment} {session : Session}
    (reach : SessionReach history session) :
    (∀ action failure, (session.step action).outcome = .error failure →
      (session.step action).session = session) ∧
    (∀ action name id linked node, action.subject? = some name → action.runs = true →
      session.find? name = some (id, .expression linked node) →
        ∀ failure, (session.step action).outcome = .error failure ↔
          action.compiles = true ∧ node.Refuses (session.world linked) failure) ∧
    ∀ id linked node expression, session.nodes[id]? = some (.expression linked node) →
      node.lifecycle = .compiled expression →
        ∀ later last, SessionReach (later ++ history) last →
          ∀ action name held, action.subject? = some name → action.runs = true →
            last.find? name = some (id, held) →
              ∃ answer, (last.step action).outcome = .ok answer := by
  refine ⟨?_, ?_, ?_⟩
  · intro action failure failed
    exact reach.session_of_error failed
  · intro action name id linked node asked runs found failure
    exact reach.fails_iff asked runs found failure
  · intro id linked node expression present compiled later last further action name held asked runs
      found
    obtain ⟨kept, there, _, still⟩ := reach.kept further present compiled
    have same : held = .expression linked kept :=
      Option.some.inj ((Session.nodes_of_find? found).symm.trans there)
    rw [same] at found
    exact further.succeeds_of_compiled still asked runs found

/-- The refused graph was looked up in part before it failed; the other expression still reads a node
that is no longer registered. -/
theorem SessionReach.failure_atomic_strict_update :
    ∃ history session last, SessionReach history session ∧
      (session.step (.update "strict")).outcome =
        .error (.unsupported ⟨Path.graph.field .b, "set"⟩) ∧
      (session.step (.update "strict")).events.filterMap Event.lookup? = [1] ∧
      (session.step (.update "strict")).session = session ∧
      SessionReach (⟨session, .remove 1⟩ :: history) last ∧
      ∃ answer, (last.step (.evaluate "copy")).outcome = .ok answer := by
  let reference : Json := .obj [("type", .str "value"), ("tag", .int 1)]
  let statement : Json := .obj [("type", .str "set")]
  let sum : Json := .obj [("type", .str "add"), ("a", reference), ("b", statement),
    ("others", .arr [])]
  have reach := SessionReach.start
    |>.next (.newValue "source" (some (.float 1)))
    |>.next (.newExpression "copy" reference Config.standard true false)
    |>.next (.newExpression "strict" sum ⟨.compile, true⟩ true false)
    |>.next (.add 1 "source")
    |>.next (.update "copy")
  let node : ExpressionNode NodeId := ⟨Config.standard, .compiled ⟨.reference 1, .captured 1 0⟩, 1⟩
  have further := reach.next (.remove 1)
  obtain ⟨unchanged, _, lasting⟩ := reach.failure_atomic
  refine ⟨_, _, _, reach, rfl, rfl, unchanged (.update "strict") _ rfl, further, ?_⟩
  exact lasting 1 true node _ rfl rfl [_] _ further (.evaluate "copy") "copy" _ rfl rfl rfl

end TickGraph
