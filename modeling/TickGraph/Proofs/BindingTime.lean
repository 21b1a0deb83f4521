import TickGraph.Proofs.NodeHistory

namespace TickGraph

/-- The node under a tag, if there is one and it produces a value. -/
def Session.producer? (session : Session) (tag : Int) : Option NodeId :=
  match session.registry.get? tag with
  | none => none
  | some id =>
    match session.nodes[id]? with
    | some (.value _) => some id
    | some (.expression _ _) => some id
    | _ => none

/-- The present value of a node as a double. An absent value counts as zero. -/
def Session.scalar (session : Session) (id : NodeId) : Float :=
  (session.nodes[id]?.bind SessionNode.current).getD 0

/-- The present number of a leaf whose node was looked up in the session `before`. -/
def Session.leaf (before now : Session) (tag : Int) : Float :=
  match before.producer? tag with
  | none => 0
  | some id => now.scalar id

theorem Session.handle?_world (session : Session) (tag : Int) :
    (session.world true).handle? tag = session.producer? tag := by
  unfold World.handle? Session.producer?
  simp only [Session.world, if_true, Option.bind_some, Session.entry]
  cases session.registry.get? tag with
  | none => rfl
  | some id =>
    cases held : session.nodes[id]? with
    | none => simp only [held]; rfl
    | some node => cases node <;> simp only [held] <;> rfl

theorem Session.value_world (session : Session) (linked : Bool) (id : NodeId) :
    (session.world linked).value id = session.scalar id := by
  unfold World.value Session.scalar
  simp only [Session.world, Session.read]
  cases session.nodes[id]?.bind SessionNode.current <;> rfl

/-- Nodes hold doubles, so every value of a session can be read. -/
theorem Session.convertible_world (session : Session) (linked : Bool) (id : NodeId) :
    (session.world linked).Convertible id := by
  intro number found
  simp only [Session.world, Session.read, Option.map_eq_some_iff] at found
  obtain ⟨x, _, same⟩ := found
  exact ⟨x, by rw [← same]; rfl⟩

theorem Session.leaf_compile (before now : Session) :
    ReferenceMode.compile.leaf (before.world true) (now.world true) = before.leaf now := by
  funext tag
  simp only [ReferenceMode.leaf, ReferenceMode.handle?, Session.handle?_world,
    Session.value_world, Session.leaf]
  cases before.producer? tag <;> rfl

theorem Session.leaf_tick (before : World NodeId) (now : Session) :
    ReferenceMode.tick.leaf before (now.world true) = now.leaf now := by
  funext tag
  simp only [ReferenceMode.leaf, ReferenceMode.handle?, Session.handle?_world,
    Session.value_world, Session.leaf]
  cases now.producer? tag <;> rfl

/-- A call in a session never fails. -/
theorem Session.call_of_compile {config : Config} {before : World NodeId} {source : Source}
    {expression : Compiled NodeId}
    (success : (compile config before source).outcome = .ok expression) (session : Session)
    (linked : Bool) :
    (expression.call (session.world linked)).outcome =
      .ok (expression.root.meaning (config.mode.leaf before (session.world linked))) := by
  rw [Compiled.call_of_compile success]
  exact fun _ _ id _ => session.convertible_world linked id

theorem Session.nodes_step_of_rebinds (session : Session) {action : Action}
    (rebinding : action.rebinds = true) : (session.step action).session.nodes = session.nodes := by
  cases session.transition action with
  | kept same quiet idle => rw [same]
  | rebound registry answer asked reply => rw [reply]; rfl
  | created name node answer new asked still reply =>
    rw [still] at rebinding
    cases rebinding
  | assigned name id old x number asked found reply =>
    rw [asked] at rebinding
    cases rebinding
  | called name id linked node asked found reply =>
    rw [asked] at rebinding
    cases rebinding
  | compiled name id linked node asked found reply =>
    rw [asked] at rebinding
    cases rebinding
  | evaluated name id linked node asked found reply =>
    rcases asked with asked | asked <;> rw [asked] at rebinding <;> cases rebinding

/-- A run in which tags are only added and removed changes no node. -/
theorem SessionReach.nodes_of_rebinds {history later : List Moment} {session last : Session}
    (reach : SessionReach history session) (further : SessionReach (later ++ history) last)
    (rebinding : ∀ moment ∈ later, moment.action.rebinds = true) : last.nodes = session.nodes := by
  induction later generalizing last with
  | nil => rw [reach.unique further]
  | cons moment rest ih =>
    cases further with
    | @next _ before action previous =>
      have earlier := ih previous fun other member =>
        rebinding other (List.mem_cons_of_mem _ member)
      have change := before.nodes_step_of_rebinds (rebinding _ (List.mem_cons_self ..))
      exact change.trans earlier

theorem Session.scalar_congr {session other : Session} (same : other.nodes = session.nodes)
    (id : NodeId) : other.scalar id = session.scalar id := by
  unfold Session.scalar
  rw [same]

/-- In every run, what a compiled expression gives when it is called. It was compiled at exactly one
moment of the history. In compile mode its leaves read, now, the nodes that stood under their tags
at that moment. So any session in which these nodes have the same values gives the same result, and
adding or removing tags changes nothing. In tick mode its leaves read the nodes that stand under
their tags now, and compiling the tree afresh, in either mode, gives the same result. -/
theorem SessionReach.call_value {history : List Moment} {session : Session}
    (reach : SessionReach history session) {id : NodeId} {node : ExpressionNode NodeId}
    {expression : Compiled NodeId} (present : session.nodes[id]? = some (.expression true node))
    (held : node.lifecycle = .compiled expression) :
    history.filterMap (Moment.compiled? · id) = [expression] ∧
    ∃ moment ∈ history, moment.compiled? id = some expression ∧
      (node.config.mode = .compile →
        (expression.call (session.world true)).outcome =
          .ok (expression.root.meaning (moment.session.leaf session)) ∧
        (∀ other : Session,
          (∀ tag ∈ expression.root.references, ∀ target,
            moment.session.producer? tag = some target →
              other.scalar target = session.scalar target) →
          (expression.call (other.world true)).outcome =
            (expression.call (session.world true)).outcome) ∧
        (∀ later last, SessionReach (later ++ history) last →
          (∀ change ∈ later, change.action.rebinds = true) →
          (expression.call (last.world true)).outcome =
            (expression.call (session.world true)).outcome)) ∧
      (node.config.mode = .tick →
        (expression.call (session.world true)).outcome =
          .ok (expression.root.meaning (session.leaf session)) ∧
        ∀ mode, ∃ fresh,
          (compile ⟨mode, node.config.strict⟩ (session.world true)
            (.tree expression.root)).outcome = .ok fresh ∧
          (fresh.call (session.world true)).outcome =
            (expression.call (session.world true)).outcome) := by
  have recorded := reach.recorded present
  have compilations := recorded.compilations
  rw [held] at compilations
  obtain ⟨moment, member, made, source, success⟩ := recorded.origin expression held
  refine ⟨compilations, moment, member, made, ?_, ?_⟩
  · intro once
    have value (now : Session) : (expression.call (now.world true)).outcome =
        .ok (expression.root.meaning (moment.session.leaf now)) := by
      rw [Session.call_of_compile success, once, Session.leaf_compile]
    have agreeing (other : Session)
        (agree : ∀ tag ∈ expression.root.references, ∀ target,
          moment.session.producer? tag = some target →
            other.scalar target = session.scalar target) :
        (expression.call (other.world true)).outcome =
          (expression.call (session.world true)).outcome := by
      have leaves : ∀ tag ∈ expression.root.live (moment.session.leaf session),
          moment.session.leaf other tag = moment.session.leaf session tag := by
        intro tag live
        have referred := (expression.root.live_sublist _).subset live
        unfold Session.leaf
        cases found : moment.session.producer? tag with
        | none => rfl
        | some target => exact agree tag referred target found
      rw [value other, value session, (expression.root.meaning_congr leaves).1]
    refine ⟨value session, agreeing, ?_⟩
    intro later last further rebinding
    have same := reach.nodes_of_rebinds further rebinding
    exact agreeing last fun _ _ target _ => Session.scalar_congr same target
  · intro late
    have value : (expression.call (session.world true)).outcome =
        .ok (expression.root.meaning (session.leaf session)) := by
      rw [Session.call_of_compile success, late, Session.leaf_tick]
    refine ⟨value, ?_⟩
    intro mode
    have admitted : Config.Admits ⟨mode, node.config.strict⟩ expression.root :=
      (admits_of_compile success).2
    have read : (Source.tree expression.root).root = .ok expression.root := rfl
    have again := congrArg Traced.outcome
      (@compile_of_admits _ _ (session.world true) _ _ read admitted)
    refine ⟨_, again, ?_⟩
    rw [Session.call_of_compile again, value]
    cases mode with
    | compile => rw [Session.leaf_compile]
    | tick => rw [Session.leaf_tick]

/-- The node under tag 1 is read although nothing stands under that tag any more. -/
theorem SessionReach.call_value_after_removal :
    ∃ history session node expression, SessionReach history session ∧
      session.producer? 1 = none ∧ session.nodes[1]? = some (.expression true node) ∧
      node.lifecycle = .compiled expression ∧
      ∃ moment ∈ history, moment.compiled? 1 = some expression ∧
        (expression.call (session.world true)).outcome =
          .ok (expression.root.meaning (moment.session.leaf session)) ∧
        (expression.call (session.world true)).outcome = .ok 2.5 := by
  have reach := SessionReach.start
    |>.next (.newValue "source" (some (.float 1)))
    |>.next (.newExpression "copy" (.obj [("type", .str "value"), ("tag", .int 1)])
      Config.standard true false)
    |>.next (.add 1 "source")
    |>.next (.update "copy")
    |>.next (.remove 1)
    |>.next (.set "source" (.float 2.5))
  let expression : Compiled NodeId := ⟨.reference 1, .captured 1 0⟩
  let node : ExpressionNode NodeId := ⟨Config.standard, .compiled expression, 1⟩
  obtain ⟨_, moment, member, made, once, _⟩ :=
    @SessionReach.call_value _ _ reach 1 node expression rfl rfl
  exact ⟨_, _, node, expression, reach, rfl, rfl, rfl, moment, member, made, (once rfl).1, rfl⟩

end TickGraph
