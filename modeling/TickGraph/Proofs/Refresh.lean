import TickGraph.Proofs.CompileOutcome
import TickGraph.Proofs.Standing

namespace TickGraph

section Compiling

variable {H : Type} {world other : World H}

/-- What a graph compiles to depends on the handles that are found and on nothing else. -/
theorem compile_outcome_congr (same : ∀ tag, other.handle? tag = world.handle? tag)
    (config : Config) (source : Source) :
    (compile config other source).outcome = (compile config world source).outcome := by
  rcases config.source_cases source with ⟨fault, unread⟩ |
    ⟨root, before, error, read, strict, first⟩ | ⟨root, read, admitted⟩
  · rw [compile_of_fault unread, compile_of_fault unread]
  · rw [compile_of_first read strict first, compile_of_first read strict first]
  · have leaves : config.mode.leafCode other = config.mode.leafCode world := by
      funext tag
      unfold ReferenceMode.leafCode
      rw [same]
    rw [compile_of_admits read admitted, compile_of_admits read admitted, leaves]

theorem ExpressionNode.outcome_compile_congr (same : ∀ tag, other.handle? tag = world.handle? tag)
    (node : ExpressionNode H) : (node.compile other).outcome = (node.compile world).outcome := by
  cases held : node.lifecycle with
  | compiled expression => rw [compile_of_compiled held, compile_of_compiled held]
  | uncompiled source =>
    have alike := compile_outcome_congr same node.config source
    cases outcome : (TickGraph.compile node.config world source).outcome with
    | ok expression =>
      rw [compile_of_success held outcome, compile_of_success held (alike.trans outcome)]
    | error error =>
      rw [compile_of_failure held outcome, compile_of_failure held (alike.trans outcome)]

/-- What a node compiles to was made before, or is made now. -/
theorem ExpressionNode.compile_ok_cases {node : ExpressionNode H} {expression : Compiled H}
    (made : (node.compile world).outcome = .ok expression) :
    node.lifecycle = .compiled expression ∨ ∃ source, node.lifecycle = .uncompiled source ∧
      (TickGraph.compile node.config world source).outcome = .ok expression := by
  cases held : node.lifecycle with
  | compiled taken =>
    rw [compile_of_compiled held] at made
    cases made
    exact Or.inl rfl
  | uncompiled source =>
    cases outcome : (TickGraph.compile node.config world source).outcome with
    | ok taken =>
      rw [compile_of_success held outcome] at made
      cases made
      exact Or.inr ⟨source, rfl, outcome⟩
    | error error =>
      rw [compile_of_failure held outcome] at made
      cases made

/-- What a node compiles to comes from a compilation with its configuration. -/
theorem ExpressionNode.Genuine.of_compile {node : ExpressionNode H} (genuine : node.Genuine)
    {expression : Compiled H} (made : (node.compile world).outcome = .ok expression) :
    ∃ before source, (TickGraph.compile node.config before source).outcome = .ok expression := by
  rcases ExpressionNode.compile_ok_cases made with held | ⟨source, _, success⟩
  · exact genuine expression held
  · exact ⟨world, source, success⟩

end Compiling

namespace Session

/-- The session after an update of the node of a name. -/
def update (session : Session) (name : String) : Session :=
  (session.step (.update name)).session

/-- The session after updates one after the other. -/
def updates (session : Session) (names : List String) : Session :=
  names.foldl Session.update session

/-- The name means an expression node that is compiled, or that compiles now. -/
def Compiles (session : Session) (name : String) : Prop :=
  ∃ id linked node expression, session.find? name = some (id, .expression linked node) ∧
    (node.compile (session.world linked)).outcome = .ok expression

/-- All expressions of a session came from compilations. -/
def Genuine (session : Session) : Prop :=
  ∀ (id : NodeId) (linked : Bool) (node : ExpressionNode NodeId),
    session.nodes[id]? = some (.expression linked node) → node.Genuine

/-- How a session differs from an earlier one when some expressions were updated in between: these
are compiled, to what they compiled to before, and have some value. Nothing else has changed. -/
structure Refreshed (session next : Session) : Prop where
  names : next.names = session.names
  registry : next.registry = session.registry
  node : ∀ id : NodeId, next.nodes[id]? = session.nodes[id]? ∨
    ∃ (linked : Bool) (node : ExpressionNode NodeId) (expression : Compiled NodeId) (x : Float),
      session.nodes[id]? = some (.expression linked node) ∧
      (node.compile (session.world linked)).outcome = .ok expression ∧
      next.nodes[id]? = some (.expression linked ⟨node.config, .compiled expression, x⟩)

end Session

/-- In every run all expressions came from compilations. -/
theorem SessionReach.genuine {history : List Moment} {session : Session}
    (reach : SessionReach history session) : session.Genuine :=
  fun _ _ _ present => (reach.recorded present).genuine

namespace Session

variable {session next last : Session} {name other : String} {id : NodeId} {linked : Bool}
  {node : ExpressionNode NodeId} {expression : Compiled NodeId}

theorem find?_eq_some_iff {held : SessionNode} :
    session.find? name = some (id, held) ↔
      session.names.lookup name = some id ∧ session.nodes[id]? = some held := by
  unfold find? nodeAt
  cases session.names.lookup name with
  | none => simp
  | some other =>
    simp only [Option.map_eq_some_iff, Prod.mk.injEq, Option.some.injEq]
    constructor
    · rintro ⟨found, present, same, equal⟩
      exact ⟨same, by rw [← same, ← equal]; exact present⟩
    · rintro ⟨same, present⟩
      exact ⟨held, by rw [same]; exact present, same, rfl⟩

theorem step_update (session : Session) (name : String) :
    session.step (.update name) =
      session.onExpression name ExpressionNode.evaluate fun _ x => .number (some x) := rfl

/-- An update of an expression that compiles succeeds, and stores what the expression gives when it
is called now. -/
theorem update_of_compiles (found : session.find? name = some (id, .expression linked node))
    (genuine : node.Genuine)
    (made : (node.compile (session.world linked)).outcome = .ok expression) :
    ∃ x, (expression.call (session.world linked)).outcome = .ok x ∧
      (session.step (.update name)).outcome = .ok (.number (some x)) ∧
      session.update name =
        session.store id (.expression linked ⟨node.config, .compiled expression, x⟩) := by
  obtain ⟨x, value⟩ := Session.callable genuine made
  rw [update, step_update, onExpression_of_found found, ExpressionNode.evaluate_of_ok made value]
  exact ⟨x, value, rfl, rfl⟩

theorem nodes_store_ne {other : NodeId} {new : SessionNode} (different : other ≠ id) :
    (session.store id new).nodes[other]? = session.nodes[other]? :=
  List.getElem?_set_ne (Ne.symm different)

theorem nodes_store_self {old new : SessionNode} (held : session.nodes[id]? = some old) :
    (session.store id new).nodes[id]? = some new :=
  List.getElem?_set_self (List.getElem?_eq_some_iff.mp held).1

theorem update_eq (session : Session) (name : String) :
    session.update name =
      match session.find? name with
      | some (id, .expression linked node) =>
        session.store id (.expression linked (node.evaluate (session.world linked)).node)
      | _ => session := by
  rw [update, step_update, onExpression]
  cases session.find? name with
  | none => rfl
  | some found =>
    obtain ⟨id, held⟩ := found
    cases held <;> rfl

theorem update_congr (same : session.find? other = session.find? name) :
    session.update other = session.update name := by
  rw [update_eq, update_eq, same]

theorem names_update (session : Session) (name : String) :
    (session.update name).names = session.names := by
  rw [update_eq]
  split <;> rfl

theorem nodes_update_ne (apart : session.names.lookup name ≠ some id) :
    (session.update name).nodes[id]? = session.nodes[id]? := by
  rw [update_eq]
  split
  · rename_i target linked node found
    have different : id ≠ target := by
      intro same
      exact apart (same ▸ (find?_eq_some_iff.mp found).1)
    exact nodes_store_ne different
  · rfl

namespace Refreshed

theorem refl (session : Session) : session.Refreshed session :=
  ⟨rfl, rfl, fun _ => Or.inl rfl⟩

/-- Updates leave every tag with what it resolves to. -/
theorem producer?_eq (refreshed : session.Refreshed next) (tag : Int) :
    next.producer? tag = session.producer? tag := by
  have entry : next.registry.get? tag = session.registry.get? tag := by rw [refreshed.registry]
  refine Session.producer?_congr entry ?_
  intro id _
  rcases refreshed.node id with same | ⟨linked, node, expression, x, held, _, now⟩
  · rw [same]
  · rw [held, now]
    rfl

theorem handle?_eq (refreshed : session.Refreshed next) (linked : Bool) (tag : Int) :
    (next.world linked).handle? tag = (session.world linked).handle? tag := by
  cases linked with
  | false => rfl
  | true => rw [Session.handle?_world, Session.handle?_world, refreshed.producer?_eq]

theorem compile_eq (refreshed : session.Refreshed next) (linked : Bool)
    (node : ExpressionNode NodeId) :
    (node.compile (next.world linked)).outcome = (node.compile (session.world linked)).outcome :=
  ExpressionNode.outcome_compile_congr (refreshed.handle?_eq linked) node

/-- An expression that compiles is still there after updates, and compiles to the same. -/
theorem expression_kept (refreshed : session.Refreshed next)
    (present : session.nodes[id]? = some (.expression linked node))
    (made : (node.compile (session.world linked)).outcome = .ok expression) :
    ∃ kept, next.nodes[id]? = some (.expression linked kept) ∧ kept.config = node.config ∧
      (kept.compile (next.world linked)).outcome = .ok expression := by
  rcases refreshed.node id with same | ⟨other, old, taken, x, held, compiled, now⟩
  · exact ⟨node, same.trans present, rfl, (refreshed.compile_eq linked node).trans made⟩
  · cases present.symm.trans held
    cases made.symm.trans compiled
    exact ⟨_, now, rfl, rfl⟩

theorem trans (first : session.Refreshed next) (second : next.Refreshed last) :
    session.Refreshed last := by
  refine ⟨second.names.trans first.names, second.registry.trans first.registry, ?_⟩
  intro id
  rcases second.node id with same | ⟨linked, node, expression, x, held, made, now⟩
  · rw [same]
    exact first.node id
  · rcases first.node id with kept | ⟨other, old, taken, y, before, compiled, between⟩
    · rw [first.compile_eq] at made
      exact Or.inr ⟨linked, node, expression, x, kept.symm.trans held, made, now⟩
    · -- The node was compiled already when it was updated again.
      cases between.symm.trans held
      cases Except.ok.inj made
      exact Or.inr ⟨linked, old, _, x, before, compiled, now⟩

theorem genuine (refreshed : session.Refreshed next) (sound : session.Genuine) : next.Genuine := by
  intro id linked node present
  rcases refreshed.node id with same | ⟨other, old, taken, x, held, made, now⟩
  · exact sound id linked node (same.symm.trans present)
  · cases present.symm.trans now
    intro expression compiled
    cases compiled
    exact (sound id linked old held).of_compile made

theorem compiles (refreshed : session.Refreshed next) (good : session.Compiles name) :
    next.Compiles name := by
  obtain ⟨id, linked, node, expression, found, made⟩ := good
  obtain ⟨named, present⟩ := find?_eq_some_iff.mp found
  obtain ⟨kept, there, _, again⟩ := refreshed.expression_kept present made
  have naming : next.names.lookup name = some id := by rw [refreshed.names, named]
  exact ⟨id, linked, kept, expression, find?_eq_some_iff.mpr ⟨naming, there⟩, again⟩

/-- Updates lead to the same session if they leave the same nodes. -/
theorem eq_of_nodes (first : session.Refreshed next) (second : session.Refreshed last)
    (same : ∀ id : NodeId, last.nodes[id]? = next.nodes[id]?) : last = next := by
  obtain ⟨nodes, names, registry⟩ := next
  obtain ⟨others, otherNames, otherRegistry⟩ := last
  have alike : others = nodes := List.ext_getElem? same
  have naming : otherNames = names := second.names.trans first.names.symm
  have tags : otherRegistry = registry := second.registry.trans first.registry.symm
  rw [alike, naming, tags]

end Refreshed

/-- Storing an expression with what it compiles to is all that an update does. -/
theorem refreshed_store (present : session.nodes[id]? = some (.expression linked node))
    (made : (node.compile (session.world linked)).outcome = .ok expression) (x : Float) :
    session.Refreshed
      (session.store id (.expression linked ⟨node.config, .compiled expression, x⟩)) := by
  refine ⟨rfl, rfl, ?_⟩
  intro other
  by_cases same : other = id
  · subst other
    exact Or.inr ⟨linked, node, expression, x, present, made, nodes_store_self present⟩
  · exact Or.inl (nodes_store_ne same)

theorem Compiles.refreshed (good : session.Compiles name) (sound : session.Genuine) :
    session.Refreshed (session.update name) := by
  obtain ⟨id, linked, node, expression, found, made⟩ := good
  obtain ⟨_, present⟩ := find?_eq_some_iff.mp found
  obtain ⟨x, _, _, stored⟩ := update_of_compiles found (sound id linked node present) made
  rw [stored]
  exact refreshed_store present made x

end Session

end TickGraph
