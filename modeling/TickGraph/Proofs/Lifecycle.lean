import TickGraph.Proofs.NodeHistory

namespace TickGraph

theorem Moment.lookups_of_compiled {moment : Moment} {id : NodeId} {linked : Bool}
    {node : ExpressionNode NodeId} {expression : Compiled NodeId}
    (present : moment.session.nodes[id]? = some (.expression linked node))
    (genuine : node.Genuine) (held : node.lifecycle = .compiled expression)
    (once : node.config.mode = .compile) :
    (moment.eventsFor id).filterMap Event.lookup? = [] := by
  obtain ⟨next, _, advance⟩ := Moment.advance present genuine
  obtain ⟨before, source, success⟩ := genuine expression held
  have silent := Compiled.lookups_call_eq_nil success once (moment.session.world linked)
  rw [List.filterMap_eq_nil_iff]
  intro event member
  have called := advance.calls expression held event member
  exact List.filterMap_eq_nil_iff.mp silent event called

/-- What every operation on a node preserves holds in all that follows. -/
theorem SessionReach.preserves {holds : ExpressionNode NodeId → Prop}
    (preserved : ∀ {world made events result node next},
      @ExpressionNode.Advance NodeId world made events result node next → holds node → holds next)
    {history later : List Moment} {session last : Session}
    (reach : SessionReach history session) (further : SessionReach (later ++ history) last)
    {id : NodeId} {linked : Bool} {node : ExpressionNode NodeId}
    (present : session.nodes[id]? = some (.expression linked node)) (now : holds node) :
    ∃ kept, last.nodes[id]? = some (.expression linked kept) ∧ holds kept := by
  induction later generalizing last with
  | nil =>
    rw [← reach.unique further]
    exact ⟨node, present, now⟩
  | cons moment rest ih =>
    cases further with
    | @next _ before action previous =>
      obtain ⟨old, there, held⟩ := ih previous
      have genuine := (previous.recorded there).genuine
      obtain ⟨next, after, advance⟩ := @Moment.advance ⟨before, action⟩ id linked old there genuine
      exact ⟨next, after, preserved advance held⟩

/-- A compiled node keeps its expression and its configuration, whatever the run goes on to do. -/
theorem SessionReach.kept {history later : List Moment} {session last : Session}
    (reach : SessionReach history session) (further : SessionReach (later ++ history) last)
    {id : NodeId} {linked : Bool} {node : ExpressionNode NodeId} {expression : Compiled NodeId}
    (present : session.nodes[id]? = some (.expression linked node))
    (held : node.lifecycle = .compiled expression) :
    ∃ kept, last.nodes[id]? = some (.expression linked kept) ∧ kept.config = node.config ∧
      kept.lifecycle = .compiled expression := by
  refine reach.preserves ?_ further present ⟨rfl, held⟩
  rintro _ _ _ _ old next advance ⟨config, compiled⟩
  exact ⟨advance.config.trans config, advance.kept compiled⟩

/-- After a compilation that captured the handles the run looks nothing up for the node. -/
theorem SessionReach.lookups_eq_nil {history later : List Moment} {session last : Session}
    (reach : SessionReach history session) (further : SessionReach (later ++ history) last)
    {id : NodeId} {linked : Bool} {node : ExpressionNode NodeId} {expression : Compiled NodeId}
    (present : session.nodes[id]? = some (.expression linked node))
    (held : node.lifecycle = .compiled expression) (once : node.config.mode = .compile) :
    (later.flatMap (Moment.eventsFor · id)).filterMap Event.lookup? = [] := by
  induction later generalizing last with
  | nil => rfl
  | cons moment rest ih =>
    cases further with
    | @next _ before action previous =>
      obtain ⟨old, there, config, compiled⟩ := reach.kept previous present held
      have genuine := (previous.recorded there).genuine
      have silent := @Moment.lookups_of_compiled ⟨before, action⟩ id linked old expression there
        genuine compiled (by rw [config]; exact once)
      rw [List.flatMap_cons, List.filterMap_append, silent, ih previous]
      rfl

/-- The life of an expression node in a run. It has been compiled at most once, with one line for
that, and then it has that expression; its value is the result of its latest evaluation, and zero
before there is one. A compiled node keeps its expression in all that follows, compiling gives that
expression whatever the outside is, and in compile mode nothing is looked up for the node any more.
One step compiles a node exactly if it asks for that and the graph of the node compiles for the first
time, and then it looks up, in compile mode, what that compilation looks up; and it changes the value
only if it evaluates the node and succeeds. -/
theorem SessionReach.lifecycle_once {history : List Moment} {session : Session}
    (reach : SessionReach history session) {id : NodeId} {linked : Bool}
    {node : ExpressionNode NodeId} (present : session.nodes[id]? = some (.expression linked node)) :
    history.filterMap (Moment.compiled? · id) = node.lifecycle.expression?.toList ∧
    (history.flatMap (Moment.eventsFor · id)).filterMap Event.compiled? =
      node.lifecycle.expression?.toList.map Compiled.root ∧
    (SessionNode.expression linked node).current =
      some ((history.filterMap (Moment.result? · id)).head?.getD 0) ∧
    (∀ expression, node.lifecycle = .compiled expression →
      ∀ later last, SessionReach (later ++ history) last →
        (∃ kept, last.nodes[id]? = some (.expression linked kept) ∧ kept.config = node.config ∧
          ∀ world, kept.compile world = ⟨kept, [], .ok expression⟩) ∧
        (node.config.mode = .compile →
          (later.flatMap (Moment.eventsFor · id)).filterMap Event.lookup? = [])) ∧
    ∀ action, let moment := Moment.mk session action
      ∃ next, moment.reply.session.nodes[id]? = some (.expression linked next) ∧
        next.lifecycle = (moment.compiled? id).elim node.lifecycle .compiled ∧
        (∀ expression, moment.compiled? id = some expression ↔
          moment.asks id = true ∧ action.compiles = true ∧
            ∃ source, node.lifecycle = .uncompiled source ∧
              (compile node.config (session.world linked) source).outcome = .ok expression) ∧
        (∀ source, node.lifecycle = .uncompiled source → (moment.compiled? id).isSome →
          node.config.mode = .compile →
            (moment.eventsFor id).filterMap Event.lookup? =
              (compile node.config (session.world linked) source).lookups) ∧
        next.value = (moment.result? id).getD node.value ∧
        (action.evaluates = false → next.value = node.value) ∧
        ∀ failure, moment.reply.outcome = .error failure → next.value = node.value := by
  have recorded := reach.recorded present
  refine ⟨recorded.compilations, recorded.lines, congrArg some recorded.value, ?_, ?_⟩
  · intro expression held later last further
    obtain ⟨kept, there, config, compiled⟩ := reach.kept further present held
    refine ⟨⟨kept, there, config, ?_⟩, ?_⟩
    · exact ExpressionNode.compile_of_compiled compiled
    · exact reach.lookups_eq_nil further present held
  · intro action moment
    obtain ⟨next, after, advance⟩ := @Moment.advance moment id linked node present recorded.genuine
    refine ⟨next, after, advance.lifecycle, ?_, ?_, advance.value, ?_, ?_⟩
    · intro expression
      exact Moment.compiled?_eq_some_iff present
    · intro source held compiles once
      obtain ⟨expression, made⟩ := Option.isSome_iff_exists.mp compiles
      obtain ⟨other, same, _, lookups⟩ := advance.origin expression made
      cases held.symm.trans same
      exact lookups once
    · intro light
      rw [advance.value, Moment.result?_of_light light]
      rfl
    · intro failure failed
      rw [advance.value, Moment.result?_of_error failed]
      rfl

/-- The source has another value since the evaluation, and the call that read it stored nothing. -/
theorem SessionReach.lifecycle_once_stale_value :
    ∃ history session node expression, SessionReach history session ∧
      session.nodes[1]? = some (.expression true node) ∧
      history.filterMap (Moment.compiled? · 1) = [expression] ∧
      (history.flatMap (Moment.eventsFor · 1)).filterMap Event.compiled? = [expression.root] ∧
      (history.filterMap (Moment.result? · 1)).head?.getD 0 = node.value ∧ node.value = 1 ∧
      (expression.call (session.world true)).outcome = .ok 2.5 := by
  have reach := SessionReach.start
    |>.next (.newValue "source" (some (.float 1)))
    |>.next (.newExpression "copy" (.obj [("type", .str "value"), ("tag", .int 1)])
      Config.standard true false)
    |>.next (.add 1 "source")
    |>.next (.update "copy")
    |>.next (.set "source" (.float 2.5))
    |>.next (.call "copy")
  let expression : Compiled NodeId := ⟨.reference 1, .captured 1 0⟩
  let node : ExpressionNode NodeId := ⟨Config.standard, .compiled expression, 1⟩
  obtain ⟨compilations, lines, value, _⟩ := @SessionReach.lifecycle_once _ _ reach 1 true node rfl
  exact ⟨_, _, node, expression, reach, rfl, compilations, lines, (Option.some.inj value).symm,
    rfl, rfl⟩

end TickGraph
