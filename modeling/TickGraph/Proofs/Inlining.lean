import TickGraph.Proofs.Refresh

namespace TickGraph

mutual

/-- A tree with other trees in the places of its references. -/
def Node.substitute (trees : Int → Node) : Node → Node
  | .number x => .number x
  | .reference tag => trees tag
  | .variadic op a b others =>
    .variadic op (a.substitute trees) (b.substitute trees) (Node.substitutes trees others)
  | .unary op v => .unary op (v.substitute trees)
  | .comparison op left right => .comparison op (left.substitute trees) (right.substitute trees)
  | .conditional expr ifNode elseNode =>
    .conditional (expr.substitute trees) (ifNode.substitute trees) (elseNode.substitute trees)
  | .unsupported tag raw => .unsupported tag raw

def Node.substitutes (trees : Int → Node) : List Node → List Node
  | [] => []
  | node :: rest => node.substitute trees :: Node.substitutes trees rest

end

/-- A tree with `body` in the place of every reference to `tag`. -/
def Node.inline (root : Node) (tag : Int) (body : Node) : Node :=
  root.substitute fun other => if other = tag then body else .reference other

section Substitution

variable (trees : Int → Node) (leaf : Int → Float)

theorem Node.substitutes_eq_map (nodes : List Node) :
    Node.substitutes trees nodes = nodes.map (Node.substitute trees) := by
  induction nodes with
  | nil => rfl
  | cons node rest ih => rw [Node.substitutes, ih, List.map_cons]

theorem Node.meaning_substitute (node : Node) :
    (node.substitute trees).meaning leaf =
      node.meaning fun tag => (trees tag).meaning leaf := by
  induction node with
  | number x => rfl
  | reference tag => rfl
  | variadic op a b others iha ihb ihs =>
    have further : Node.meanings leaf (Node.substitutes trees others) =
        Node.meanings (fun tag => (trees tag).meaning leaf) others := by
      rw [Node.substitutes_eq_map, Node.meanings_eq_map, Node.meanings_eq_map, List.map_map]
      exact List.map_congr_left ihs
    simp only [Node.substitute, Node.meaning, iha, ihb, further]
  | unary op v ih => simp only [Node.substitute, Node.meaning, ih]
  | comparison op left right ihl ihr => simp only [Node.substitute, Node.meaning, ihl, ihr]
  | conditional expr ifNode elseNode ihe ihi ihs =>
    simp only [Node.substitute, Node.meaning, ihe, ihi, ihs]
  | unsupported tag raw => rfl

theorem Node.meaning_inline (root : Node) (tag : Int) (body : Node) :
    (root.inline tag body).meaning leaf =
      root.meaning fun other => if other = tag then body.meaning leaf else leaf other := by
  rw [Node.inline, Node.meaning_substitute]
  congr 1
  funext other
  split <;> rfl

end Substitution

theorem Config.Admits.child {config : Config} {node child : Node} (admitted : config.Admits node)
    (member : child ∈ node.children) : config.Admits child := by
  intro strict tag raw inside
  refine admitted strict tag raw ?_
  rw [Node.preorder_eq_children]
  exact List.mem_cons_of_mem _ (List.mem_flatMap.mpr ⟨child, member, inside⟩)

/-- An operator is admitted if all its operands are. -/
theorem Config.Admits.of_children {config : Config} {node : Node}
    (composite : ∀ tag raw, Node.unsupported tag raw ≠ node)
    (children : ∀ child ∈ node.children, config.Admits child) : config.Admits node := by
  intro strict tag raw member
  rw [Node.preorder_eq_children] at member
  rcases List.mem_cons.mp member with root | below
  · exact composite tag raw root
  · obtain ⟨child, operand, inside⟩ := List.mem_flatMap.mp below
    exact children child operand strict tag raw inside

/-- What is admitted stays so when references are replaced by what is admitted. -/
theorem Config.Admits.substitute {config : Config} {trees : Int → Node} {node : Node}
    (admitted : config.Admits node) (each : ∀ tag, config.Admits (trees tag)) :
    config.Admits (node.substitute trees) := by
  induction node with
  | number x => exact admitted
  | reference tag => exact each tag
  | variadic op a b others iha ihb ihs =>
    have first := iha (admitted.child (by simp [Node.children]))
    have second := ihb (admitted.child (by simp [Node.children]))
    have further : ∀ other ∈ others, config.Admits (other.substitute trees) :=
      fun other member => ihs other member (admitted.child (by simp [Node.children, member]))
    refine .of_children (fun _ _ same => by cases same) ?_
    simpa [Node.substitute, Node.children, Node.substitutes_eq_map] using ⟨first, second, further⟩
  | unary op v ih =>
    have operand := ih (admitted.child (by simp [Node.children]))
    refine .of_children (fun _ _ same => by cases same) ?_
    simpa [Node.substitute, Node.children] using operand
  | comparison op left right ihl ihr =>
    have first := ihl (admitted.child (by simp [Node.children]))
    have second := ihr (admitted.child (by simp [Node.children]))
    refine .of_children (fun _ _ same => by cases same) ?_
    simpa [Node.substitute, Node.children] using ⟨first, second⟩
  | conditional expr ifNode elseNode ihe ihi ihs =>
    have test := ihe (admitted.child (by simp [Node.children]))
    have first := ihi (admitted.child (by simp [Node.children]))
    have second := ihs (admitted.child (by simp [Node.children]))
    refine .of_children (fun _ _ same => by cases same) ?_
    simpa [Node.substitute, Node.children] using ⟨test, first, second⟩
  | unsupported tag raw => exact admitted

theorem Config.Admits.inline {config : Config} {root body : Node} (admitted : config.Admits root)
    (inner : config.Admits body) (tag : Int) : config.Admits (root.inline tag body) := by
  refine admitted.substitute ?_
  intro other
  split
  · exact inner
  · intro _ _ _ member
    cases List.mem_singleton.mp member

/-- Where the expression of a node was compiled, all tags that it refers to had the node, or none,
that they have now. Of a node that is not compiled this says nothing. -/
def Session.StillBound (history : List Moment) (session : Session) (id : NodeId) : Prop :=
  ∀ moment ∈ history, ∀ expression, moment.compiled? id = some expression →
    ∀ tag ∈ expression.root.references,
      session.registry.get? tag = moment.session.registry.get? tag

section Sessions

variable {history : List Moment} {session : Session} {id : NodeId} {node : ExpressionNode NodeId}
  {expression : Compiled NodeId}

/-- A step that leaves the registry alone keeps nodes bound, also if it compiles them. -/
theorem Session.StillBound.next (bound : session.StillBound history id) {action : Action}
    (same : (session.step action).session.registry = session.registry) :
    (session.step action).session.StillBound (⟨session, action⟩ :: history) id := by
  intro moment member expression compiles tag referred
  rw [same]
  rcases List.mem_cons.mp member with now | earlier
  · rw [now]
  · exact bound moment earlier expression compiles tag referred

theorem SessionReach.stillBound_of_uncompiled (reach : SessionReach history session)
    {linked : Bool} {source : Source}
    (present : session.nodes[id]? = some (.expression linked node))
    (held : node.lifecycle = .uncompiled source) : session.StillBound history id := by
  have never := (reach.recorded present).compilations
  rw [held] at never
  intro moment member expression compiles
  cases (List.filterMap_eq_nil_iff.mp never moment member).symm.trans compiles

theorem Session.leaf_now (session : Session) (mode : ReferenceMode) :
    mode.leaf (session.world true) (session.world true) = session.leaf session := by
  cases mode with
  | compile => exact session.leaf_compile session
  | tick => exact session.leaf_tick (session.world true)

theorem Session.leaf_congr {before now other after : Session} {tag : Int}
    (resolves : other.producer? tag = before.producer? tag)
    (values : ∀ target, before.producer? tag = some target →
      after.scalar target = now.scalar target) :
    other.leaf after tag = before.leaf now tag := by
  unfold Session.leaf
  rw [resolves]
  cases found : before.producer? tag with
  | none => rfl
  | some target => exact values target found

/-- An expression that a node has or compiles to now was compiled in a session in which the tags that
it refers to resolve as they do now. -/
theorem SessionReach.compiled_in (reach : SessionReach history session)
    (present : session.nodes[id]? = some (.expression true node))
    (made : (node.compile (session.world true)).outcome = .ok expression)
    (bound : node.config.mode = .compile → session.StillBound history id) :
    ∃ before source,
      (compile node.config (Session.world before true) source).outcome = .ok expression ∧
      (node.config.mode = .compile → ∀ tag ∈ expression.root.references,
        before.producer? tag = session.producer? tag) := by
  rcases ExpressionNode.compile_ok_cases made with held | ⟨source, _, success⟩
  · obtain ⟨moment, member, compiles, source, success⟩ :=
      (reach.recorded present).origin expression held
    refine ⟨moment.session, source, success, ?_⟩
    intro once tag referred
    exact (reach.producer?_eq member (bound once moment member expression compiles tag referred)).symm
  · exact ⟨session, source, success, fun _ _ _ => rfl⟩

/-- A call of such an expression gives the meaning of its tree over the present values, in either
mode. -/
theorem SessionReach.call_of_bound (reach : SessionReach history session)
    (present : session.nodes[id]? = some (.expression true node))
    (made : (node.compile (session.world true)).outcome = .ok expression)
    (bound : node.config.mode = .compile → session.StillBound history id) :
    (expression.call (session.world true)).outcome =
      .ok (expression.root.meaning (session.leaf session)) := by
  obtain ⟨before, source, success, resolves⟩ := reach.compiled_in present made bound
  rw [Session.call_of_compile success]
  cases mode : node.config.mode with
  | tick => rw [Session.leaf_tick]
  | compile =>
    rw [Session.leaf_compile]
    have leaves : ∀ tag ∈ expression.root.live (session.leaf session),
        before.leaf session tag = session.leaf session tag := by
      intro tag live
      have referred := (expression.root.live_sublist _).subset live
      exact Session.leaf_congr (resolves mode tag referred) fun _ _ => rfl
    rw [(expression.root.meaning_congr leaves).1]

/-- An update of such an expression stores that meaning. -/
theorem SessionReach.update_of_bound (reach : SessionReach history session) {name : String}
    (found : session.find? name = some (id, .expression true node))
    (made : (node.compile (session.world true)).outcome = .ok expression)
    (bound : node.config.mode = .compile → session.StillBound history id) :
    let value := expression.root.meaning (session.leaf session)
    (session.step (.update name)).outcome = .ok (.number (some value)) ∧
      session.update name =
        session.store id (.expression true ⟨node.config, .compiled expression, value⟩) := by
  intro value
  obtain ⟨_, present⟩ := Session.find?_eq_some_iff.mp found
  have genuine := reach.genuine id true node present
  obtain ⟨x, called, answered, stored⟩ := Session.update_of_compiles found genuine made
  have expected := reach.call_of_bound present made bound
  have same : x = value := Except.ok.inj (called.symm.trans expected)
  rw [← same]
  exact ⟨answered, stored⟩

/-- A tree that is compiled and called now gives its meaning over the present values. -/
theorem Session.call_now (session : Session) {config : Config} {root : Node}
    (admitted : config.Admits root) :
    ∃ fresh, (compile config (session.world true) (.tree root)).outcome = .ok fresh ∧
      (fresh.call (session.world true)).outcome = .ok (root.meaning (session.leaf session)) := by
  have read : (Source.tree root).root = .ok root := rfl
  have success := congrArg Traced.outcome
    (@compile_of_admits _ _ (session.world true) _ _ read admitted)
  refine ⟨_, success, ?_⟩
  rw [Session.call_of_compile success, Session.leaf_now]

theorem Session.producer?_store {linked : Bool} {next : ExpressionNode NodeId}
    (present : session.nodes[id]? = some (.expression linked node)) (tag : Int) :
    (session.store id (.expression linked next)).producer? tag = session.producer? tag :=
  Session.producer?_congr rfl fun _ _ => Session.produces_store present (by rfl) _

/-- A leaf under whose tag an expression stands has the value that was stored for it. -/
theorem Session.leaf_store_self {linked : Bool} {next : ExpressionNode NodeId} {tag : Int}
    (present : session.nodes[id]? = some (.expression linked node))
    (registered : session.registry.get? tag = some id) :
    (session.store id (.expression linked next)).leaf (session.store id (.expression linked next))
      tag = next.value := by
  unfold Session.leaf Session.scalar
  rw [Session.producer?_store present, Session.producer?_of_expression registered present]
  dsimp only
  rw [Session.nodes_store_self present]
  rfl

/-- All other leaves have the values that they had. -/
theorem Session.leaf_store_ne {linked : Bool} {next : ExpressionNode NodeId} {tag : Int}
    (present : session.nodes[id]? = some (.expression linked node))
    (apart : session.registry.get? tag ≠ some id) :
    (session.store id (.expression linked next)).leaf (session.store id (.expression linked next))
      tag = session.leaf session tag := by
  refine Session.leaf_congr (Session.producer?_store present tag) ?_
  intro target produced
  have different : target ≠ id := by
    intro same
    exact apart (same ▸ Session.registered_of_producer? produced)
  unfold Session.scalar
  rw [Session.nodes_store_ne different]

end Sessions

/-- Referring to an expression is the same as having its tree in the place of the reference. Let
`inner` stand under a tag, and let none of its own references resolve to itself. After an update of
`inner` and then of `outer`, the value of `outer` is what the tree of `outer` gives, compiled and
called between the two updates, with the tree of `inner` in the place of every reference to that tag.
In compile mode, a node that is compiled already must refer to what it referred to when it was
compiled. Nothing is asked of what else the trees refer to, be it `outer` itself. -/
theorem SessionReach.update_inlined {history : List Moment} {session : Session}
    (reach : SessionReach history session) {innerName outerName : String} {i o : NodeId}
    {inner outer : ExpressionNode NodeId} {innerMade outerMade : Compiled NodeId} {tag : Int}
    (findInner : session.find? innerName = some (i, .expression true inner))
    (findOuter : session.find? outerName = some (o, .expression true outer))
    (alike : outer.config = inner.config)
    (compilesInner : (inner.compile (session.world true)).outcome = .ok innerMade)
    (compilesOuter : (outer.compile (session.world true)).outcome = .ok outerMade)
    (bound : inner.config.mode = .compile →
      session.StillBound history i ∧ session.StillBound history o)
    (registered : session.registry.get? tag = some i)
    (apart : ∀ other ∈ innerMade.root.references, session.registry.get? other ≠ some i) :
    let between := (session.step (.update innerName)).session
    let after := (between.step (.update outerName)).session
    ∃ x fresh updated,
      (compile inner.config (between.world true)
        (.tree (outerMade.root.inline tag innerMade.root))).outcome = .ok fresh ∧
      (fresh.call (between.world true)).outcome = .ok x ∧
      (between.step (.update outerName)).outcome = .ok (.number (some x)) ∧
      after.nodes[o]? = some (.expression true updated) ∧ updated.value = x := by
  intro between after
  obtain ⟨_, presentInner⟩ := Session.find?_eq_some_iff.mp findInner
  obtain ⟨namedOuter, presentOuter⟩ := Session.find?_eq_some_iff.mp findOuter
  have genuineInner := reach.genuine i true inner presentInner
  have genuineOuter := reach.genuine o true outer presentOuter
  -- The first update stores the meaning of the inner tree, and no leaf of that tree reads it.
  let value := innerMade.root.meaning (session.leaf session)
  have stored : between =
      session.store i (.expression true ⟨inner.config, .compiled innerMade, value⟩) :=
    (reach.update_of_bound findInner compilesInner fun once => (bound once).1).2
  have refreshed : session.Refreshed between := by
    rw [stored]
    exact Session.refreshed_store presentInner compilesInner value
  have leafTag : between.leaf between tag = value := by
    rw [stored]
    exact Session.leaf_store_self presentInner registered
  have innerAgain : innerMade.root.meaning (between.leaf between) = value := by
    refine (innerMade.root.meaning_congr ?_).1
    intro other live
    have referred := (innerMade.root.live_sublist _).subset live
    rw [stored]
    exact Session.leaf_store_ne presentInner (apart other referred)
  -- The second update stores the meaning of the outer tree over the leaves that it finds then.
  obtain ⟨kept, presentKept, sameConfig, compilesKept⟩ :=
    refreshed.expression_kept presentOuter compilesOuter
  have findKept : between.find? outerName = some (o, .expression true kept) :=
    Session.find?_eq_some_iff.mpr ⟨by rw [refreshed.names, namedOuter], presentKept⟩
  have reached : SessionReach (⟨session, .update innerName⟩ :: history) between := .next _ reach
  obtain ⟨answered, storedOuter⟩ := reached.update_of_bound findKept compilesKept (by
    intro once
    rw [sameConfig, alike] at once
    exact (bound once).2.next refreshed.registry)
  -- The inlined tree has the same meaning.
  have admitted : inner.config.Admits (outerMade.root.inline tag innerMade.root) := by
    obtain ⟨_, _, successInner⟩ := genuineInner.of_compile compilesInner
    obtain ⟨_, _, successOuter⟩ := genuineOuter.of_compile compilesOuter
    rw [alike] at successOuter
    exact (admits_of_compile successOuter).2.inline (admits_of_compile successInner).2 tag
  have inlined : (outerMade.root.inline tag innerMade.root).meaning (between.leaf between) =
      outerMade.root.meaning (between.leaf between) := by
    rw [Node.meaning_inline]
    congr 1
    funext other
    split
    · rename_i same
      rw [same, leafTag, innerAgain]
    · rfl
  obtain ⟨fresh, success, called⟩ := between.call_now admitted
  rw [inlined] at called
  refine ⟨_, fresh, ⟨kept.config, .compiled outerMade, _⟩, success, called, answered, ?_, rfl⟩
  change (between.update outerName).nodes[o]? = _
  rw [storedOuter]
  exact Session.nodes_store_self presentKept

/-- The inner expression was evaluated before its source was set, and the outer one reads itself
twice. -/
theorem SessionReach.update_inlined_own_tag :
    let reference (tag : Int) : Json := .obj [("type", .str "value"), ("tag", .int tag)]
    let graph : Json := .obj [("type", .str "cond"), ("expr", reference 3), ("ifNode", reference 3),
      ("elseNode", reference 2)]
    let root : Node := .conditional (.reference 3) (.reference 3) (.reference 2)
    let inner : ExpressionNode NodeId :=
      ⟨Config.standard, .compiled ⟨.reference 1, .captured 1 0⟩, 1⟩
    let outer : ExpressionNode NodeId := ⟨Config.standard, .uncompiled (.wire graph), 0⟩
    let session : Session := ⟨[.value (some 2), .expression true inner, .expression true outer],
      [("outer", 2), ("inner", 1), ("source", 0)], ⟨[(1, 0), (2, 1), (3, 2)]⟩⟩
    let between := (session.step (.update "inner")).session
    let after := (between.step (.update "outer")).session
    (∃ history, SessionReach history session) ∧
    ∃ x fresh updated,
      (compile Config.standard (between.world true)
        (.tree (root.inline 2 (.reference 1)))).outcome = .ok fresh ∧
      (fresh.call (between.world true)).outcome = .ok x ∧
      (between.step (.update "outer")).outcome = .ok (.number (some x)) ∧
      after.nodes[2]? = some (.expression true updated) ∧ updated.value = x := by
  intro reference graph root inner outer session between after
  let fresh : ExpressionNode NodeId := ⟨Config.standard, .uncompiled (.wire (reference 1)), 0⟩
  let created : Session :=
    ⟨[.value (some 1), .expression true fresh, .expression true outer], session.names,
      session.registry⟩
  have first : SessionReach _ created := SessionReach.start
    |>.next (.newValue "source" (some (.float 1)))
    |>.next (.newExpression "inner" (reference 1) Config.standard true false)
    |>.next (.newExpression "outer" graph Config.standard true false)
    |>.next (.add 1 "source")
    |>.next (.add 2 "inner")
    |>.next (.add 3 "outer")
  have reach : SessionReach _ session :=
    first.next (.update "inner") |>.next (.set "source" (.float 2))
  have uncompiled := @SessionReach.stillBound_of_uncompiled _ _ 1 fresh first true _ rfl rfl
  have compiled := @Session.StillBound.next _ created _ uncompiled (.update "inner") rfl
  have boundInner := @Session.StillBound.next _ _ _ compiled (.set "source" (.float 2)) rfl
  have boundOuter := @SessionReach.stillBound_of_uncompiled _ _ 2 outer reach true _ rfl rfl
  have apart : ∀ other ∈ (Node.reference 1).references, session.registry.get? other ≠ some 1 := by
    intro other referred
    rw [List.mem_singleton.mp referred]
    decide
  have findInner : session.find? "inner" = some (1, .expression true inner) := rfl
  have findOuter : session.find? "outer" = some (2, .expression true outer) := rfl
  have compilesInner : (inner.compile (session.world true)).outcome =
      .ok ⟨.reference 1, .captured 1 0⟩ := rfl
  have compilesOuter : (outer.compile (session.world true)).outcome =
      .ok ⟨root, .conditional (.captured 3 2) (.captured 3 2) (.captured 2 1)⟩ := rfl
  have registered : session.registry.get? 2 = some 1 := rfl
  have result := reach.update_inlined findInner findOuter rfl compilesInner compilesOuter
    (fun _ => ⟨boundInner, boundOuter⟩) registered apart
  exact ⟨⟨_, reach⟩, result⟩

end TickGraph
