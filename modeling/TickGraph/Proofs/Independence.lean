import TickGraph.Proofs.Dependencies

namespace TickGraph

section Lookups

variable {H : Type} {now other : World H} (same : other.lookup = now.lookup)

include same

/-- Compiling looks tags up and does nothing else with the outside. -/
theorem compile_congr (config : Config) (source : Source) :
    compile config other source = compile config now source := by
  have visits : Code.visit config other = Code.visit config now := by
    funext place
    unfold Code.visit World.find
    rw [same]
  have leaves : config.mode.leafCode other = config.mode.leafCode now := by
    funext tag
    unfold ReferenceMode.leafCode World.handle?
    rw [same]
  have codes : Code.ofNode config other = Code.ofNode config now := by
    funext node path
    rw [Code.ofNode_eq, Code.ofNode_eq, visits, leaves]
  unfold compile
  rw [codes]

theorem ExpressionNode.compile_congr (node : ExpressionNode H) :
    node.compile other = node.compile now := by
  unfold ExpressionNode.compile
  rw [funext (TickGraph.compile_congr same node.config)]

theorem ReferenceMode.handle?_congr (mode : ReferenceMode) (before : World H) (tag : Int) :
    mode.handle? before other tag = mode.handle? before now tag := by
  cases mode with
  | compile => rfl
  | tick =>
    unfold ReferenceMode.handle? World.handle?
    rw [same]

theorem ReferenceMode.findEvents_congr (mode : ReferenceMode) (tag : Int) :
    mode.findEvents other tag = mode.findEvents now tag := by
  cases mode with
  | compile => rfl
  | tick =>
    unfold ReferenceMode.findEvents World.findEvents
    rw [same]

theorem ReferenceMode.leaf_congr {mode : ReferenceMode} {before : World H} {tag : Int}
    (reads : ∀ handle, mode.handle? before now tag = some handle →
      other.read handle = now.read handle) :
    mode.leaf before other tag = mode.leaf before now tag := by
  unfold ReferenceMode.leaf World.value
  rw [mode.handle?_congr same before tag]
  cases handle : mode.handle? before now tag with
  | none => rfl
  | some h => simp only [reads h handle]

/-- A leaf that finds the same and reads the same does the same. -/
theorem ReferenceMode.run_leafCode_congr {mode : ReferenceMode} {before : World H} {tag : Int}
    (reads : ∀ handle, mode.handle? before now tag = some handle →
      other.read handle = now.read handle) :
    (mode.leafCode before tag).run other = (mode.leafCode before tag).run now := by
  have found := mode.handle?_congr same before tag
  have scalar : mode.scalar before other tag = mode.scalar before now tag := by
    unfold ReferenceMode.scalar
    rw [found]
    cases handle : mode.handle? before now tag with
    | none => rfl
    | some h => exact congrArg Number.scalar (reads h handle)
  rw [ReferenceMode.run_leafCode, ReferenceMode.run_leafCode, scalar, ReferenceMode.leafEvents,
    ReferenceMode.leafEvents, found, mode.findEvents_congr same]

end Lookups

theorem Traced.forM_congr {ε α : Type} {f g : α → Traced ε Unit} {xs : List α}
    (same : ∀ x ∈ xs, g x = f x) : (forM xs g : Traced ε Unit) = forM xs f := by
  induction xs with
  | nil => rfl
  | cons x rest ih =>
    rw [List.forM_cons, List.forM_cons, same x (List.mem_cons_self ..),
      ih fun y later => same y (List.mem_cons_of_mem _ later)]

/-- A call does the same if it looks up as before and the nodes behind its references have the values
that they had. -/
theorem Compiled.call_congr {H : Type} {config : Config} {before : World H} {source : Source}
    {expression : Compiled H} (success : (compile config before source).outcome = .ok expression)
    {now other : World H} (same : other.lookup = now.lookup)
    (reads : ∀ tag ∈ expression.root.references, ∀ handle,
      config.mode.handle? before now tag = some handle → other.read handle = now.read handle) :
    expression.call other = expression.call now := by
  have leaves : ∀ tag ∈ expression.root.live (config.mode.leaf before now),
      config.mode.leaf before other tag = config.mode.leaf before now tag ∧
        (config.mode.leafCode before tag).probe other =
          (config.mode.leafCode before tag).probe now := by
    intro tag live
    have agree := reads tag ((expression.root.live_sublist _).subset live)
    exact ⟨ReferenceMode.leaf_congr same agree,
      by rw [Code.probe, Code.probe, ReferenceMode.run_leafCode_congr same agree]⟩
  obtain ⟨value, live⟩ := expression.root.meaning_congr fun tag member => (leaves tag member).1
  rw [Compiled.call_eq success, Compiled.call_eq success, value, live,
    Traced.forM_congr fun tag member => (leaves tag member).2]

namespace Session

variable {session : Session} {name other : String} {id : NodeId} {linked : Bool}
  {node : ExpressionNode NodeId}

/-- An update keeps the kind of every node, so what stands under the tags looks as before. -/
theorem entry_update (session : Session) (name : String) :
    (session.update name).entry = session.entry := by
  rw [update_eq]
  split
  · rename_i id linked node found
    have held := nodes_of_find? found
    funext tag
    have tags (new : SessionNode) : (session.store id new).registry = session.registry := rfl
    simp only [entry, tags]
    cases session.registry.get? tag with
    | none => rfl
    | some other =>
      by_cases same : other = id
      · subst other
        simp only [nodes_store_self held, held]
      · simp only [nodes_store_ne same]
  · rfl

theorem lookup_world_update (session : Session) (name : String) (linked : Bool) :
    ((session.update name).world linked).lookup = (session.world linked).lookup := by
  unfold world
  rw [entry_update]

/-- An expression is evaluated as before when another one was updated that it does not depend on,
whether or not that update succeeded. -/
theorem evaluate_update (found : session.find? name = some (id, .expression linked node))
    (genuine : node.Genuine) (apart : session.dependsOn name other = false) :
    node.evaluate ((session.update other).world linked) = node.evaluate (session.world linked) := by
  have same := session.lookup_world_update other linked
  have compiling := node.compile_congr same
  cases made : (node.compile (session.world linked)).outcome with
  | error failure =>
    rw [ExpressionNode.evaluate_of_error made,
      ExpressionNode.evaluate_of_error (by rw [compiling, made]), compiling]
  | ok expression =>
    obtain ⟨before, source, success, depends⟩ := dependencies_of_compile genuine made
    have calling : expression.call ((session.update other).world linked) =
        expression.call (session.world linked) := by
      refine Compiled.call_congr success same ?_
      intro tag referred read finds
      have dependent := depends tag referred read finds
      have unnamed : session.names.lookup other ≠ some read := by
        intro named
        rw [dependsOn_of_mem found named dependent] at apart
        cases apart
      unfold world Session.read
      dsimp only
      rw [nodes_update_ne unnamed]
    unfold ExpressionNode.evaluate
    simp only [compiling, made, calling]

/-- The step of an update after another one that the expression does not depend on. -/
theorem step_update_after (found : session.find? name = some (id, .expression linked node))
    (genuine : node.Genuine) (apart : session.dependsOn name other = false)
    (distinct : session.names.lookup other ≠ some id) :
    (session.update other).step (.update name) =
      ⟨(session.update other).store id
          (.expression linked (node.evaluate (session.world linked)).node),
        (session.step (.update name)).events, (session.step (.update name)).outcome⟩ := by
  obtain ⟨named, present⟩ := find?_eq_some_iff.mp found
  have still : (session.update other).find? name = some (id, .expression linked node) :=
    find?_eq_some_iff.mpr
      ⟨by rw [names_update, named], by rw [nodes_update_ne distinct, present]⟩
  rw [step_update, step_update, onExpression_of_found still, onExpression_of_found found,
    evaluate_update found genuine apart]

theorem store_comm {target : NodeId} (distinct : id ≠ target) (node held : SessionNode) :
    (session.store id node).store target held = (session.store target held).store id node := by
  unfold store
  rw [List.set_comm _ _ distinct]

end Session

/-- Updates of two expressions can change places if neither depends on the other: for that it is
enough that neither holds a handle to the other one and that no tag that either refers to is
registered to the other one now. In both orders each update gives the same number or the same error,
consults and reports the same in its own step, and the two together lead to the same session. They
may compile, or fail to compile, and both may read what a third node holds. -/
theorem SessionReach.update_comm {history : List Moment} {session : Session}
    (reach : SessionReach history session) {name other : String} {id target : NodeId}
    {linked alsoLinked : Bool} {node held : ExpressionNode NodeId}
    (found : session.find? name = some (id, .expression linked node))
    (also : session.find? other = some (target, .expression alsoLinked held))
    (distinct : id ≠ target) (apart : session.dependsOn name other = false)
    (back : session.dependsOn other name = false) :
    let first := session.step (.update name)
    let second := session.step (.update other)
    let firstLater := second.session.step (.update name)
    let secondLater := first.session.step (.update other)
    firstLater.outcome = first.outcome ∧ firstLater.events = first.events ∧
      secondLater.outcome = second.outcome ∧ secondLater.events = second.events ∧
      secondLater.session = firstLater.session := by
  obtain ⟨named, present⟩ := Session.find?_eq_some_iff.mp found
  obtain ⟨naming, there⟩ := Session.find?_eq_some_iff.mp also
  have notOther : session.names.lookup other ≠ some id := by
    rw [naming]
    exact fun same => distinct (Option.some.inj same).symm
  have notName : session.names.lookup name ≠ some target := by
    rw [named]
    exact fun same => distinct (Option.some.inj same)
  have firstLater := Session.step_update_after found (reach.genuine _ _ _ present) apart notOther
  have secondLater := Session.step_update_after also (reach.genuine _ _ _ there) back notName
  have first := session.update_eq name
  have second := session.update_eq other
  rw [found] at first
  rw [also] at second
  intro _ _ early late
  have earlyReply : early = _ := firstLater
  have lateReply : late = _ := secondLater
  refine ⟨by rw [earlyReply], by rw [earlyReply], by rw [lateReply], by rw [lateReply], ?_⟩
  rw [earlyReply, lateReply, first, second]
  exact Session.store_comm distinct _ _

/-- Both expressions read the same node. One of them reports an unresolved reference when it is
compiled, and the other one does not compile. -/
theorem SessionReach.update_comm_shared_source :
    let reference (tag : Int) : Json := .obj [("type", .str "value"), ("tag", .int tag)]
    let graph (b : Json) : Json :=
      .obj [("type", .str "add"), ("a", reference 1), ("b", b), ("others", .arr [])]
    let sum : ExpressionNode NodeId := .create Config.standard (.wire (graph (reference 2)))
    let strict : ExpressionNode NodeId :=
      .create ⟨.tick, true⟩ (.wire (graph (.obj [("type", .str "set")])))
    let session : Session := ⟨[.value (some 1), .expression true sum, .expression true strict],
      [("strict", 2), ("sum", 1), ("source", 0)], ⟨[(1, 0)]⟩⟩
    let refusal : Failure := .unsupported ⟨Path.graph.field .b, "set"⟩
    (∃ history, SessionReach history session) ∧
      session.dependsOn "sum" "strict" = false ∧ session.dependsOn "strict" "sum" = false ∧
      (session.step (.update "strict")).outcome = .error refusal ∧
      ((session.update "sum").step (.update "strict")).outcome = .error refusal ∧
      (session.step (.update "sum")).notices.head? = some (.unresolved (Path.graph.field .b) 2) ∧
      ((session.update "strict").step (.update "sum")).events =
        (session.step (.update "sum")).events ∧
      (session.update "sum").update "strict" = (session.update "strict").update "sum" := by
  intro reference graph sum strict session refusal
  have reach : SessionReach _ session := SessionReach.start
    |>.next (.newValue "source" (some (.float 1)))
    |>.next (.newExpression "sum" (graph (reference 2)) Config.standard true false)
    |>.next (.newExpression "strict" (graph (.obj [("type", .str "set")])) ⟨.tick, true⟩ true false)
    |>.next (.add 1 "source")
  have found : session.find? "sum" = some (1, .expression true sum) := rfl
  have also : session.find? "strict" = some (2, .expression true strict) := rfl
  have apart : session.dependsOn "sum" "strict" = false := rfl
  have back : session.dependsOn "strict" "sum" = false := rfl
  obtain ⟨_, events, outcome, _, same⟩ := reach.update_comm found also (by decide) apart back
  exact ⟨⟨_, reach⟩, apart, back, rfl, outcome, rfl, events, same⟩

end TickGraph
