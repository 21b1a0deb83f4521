import TickGraph.Proofs.Refresh

namespace TickGraph

section Handles

variable {H : Type}

mutual

/-- The handles in a piece of code, from left to right. -/
def Code.handles : Code H → List H
  | .constant _ => []
  | .captured _ handle => [handle]
  | .deferred _ => []
  | .variadic _ a b others => a.handles ++ (b.handles ++ Code.handlesOf others)
  | .unary _ v => v.handles
  | .comparison _ left right => left.handles ++ right.handles
  | .conditional expr ifCode elseCode => expr.handles ++ (ifCode.handles ++ elseCode.handles)

def Code.handlesOf : List (Code H) → List H
  | [] => []
  | code :: rest => code.handles ++ Code.handlesOf rest

end

variable {code : Int → Code H}

theorem Code.handlesOf_lowers {nodes : List Node}
    (each : ∀ node ∈ nodes,
      (node.lower code).handles = node.references.flatMap fun tag => (code tag).handles) :
    Code.handlesOf (Node.lowers code nodes) =
      (nodes.flatMap Node.references).flatMap fun tag => (code tag).handles := by
  induction nodes with
  | nil => rfl
  | cons node rest ih =>
    rw [Node.lowers, Code.handlesOf, each node (List.mem_cons_self ..),
      ih fun other later => each other (List.mem_cons_of_mem _ later), List.flatMap_cons,
      List.flatMap_append]

/-- Lowering a tree adds no handles to those of its leaves. -/
theorem Code.handles_lower (node : Node) :
    (node.lower code).handles = node.references.flatMap fun tag => (code tag).handles := by
  induction node with
  | number x => rfl
  | reference tag => simp [Node.lower]
  | variadic op a b others iha ihb ihs =>
    simp only [Node.lower, Code.handles, Node.references_variadic, List.flatMap_append, iha, ihb,
      Code.handlesOf_lowers ihs]
  | unary op v ih => simp only [Node.lower, Code.handles, Node.references_unary, ih]
  | comparison op left right ihl ihr =>
    simp only [Node.lower, Code.handles, Node.references_comparison, List.flatMap_append, ihl, ihr]
  | conditional expr ifNode elseNode ihe ihi ihs =>
    simp only [Node.lower, Code.handles, Node.references_conditional, List.flatMap_append, ihe, ihi,
      ihs]
  | unsupported tag raw => rfl

/-- What is found under a tag while compiling in compile mode is captured. -/
theorem Compiled.mem_handles {config : Config} {before : World H} {source : Source}
    {expression : Compiled H} (success : (compile config before source).outcome = .ok expression)
    (once : config.mode = .compile) {tag : Int} (referred : tag ∈ expression.root.references)
    {handle : H} (found : before.handle? tag = some handle) : handle ∈ expression.code.handles := by
  rw [code_of_compile success, Code.handles_lower, once]
  refine List.mem_flatMap.mpr ⟨tag, referred, ?_⟩
  simp only [ReferenceMode.leafCode, found, Code.handles, List.mem_singleton]

end Handles

namespace Session

/-- The nodes that an expression depends on. If it was compiled in compile mode, these are the nodes
that it captured; otherwise they are what is registered now under the tags that it refers to. -/
def dependencies (session : Session) (linked : Bool) (node : ExpressionNode NodeId) : List NodeId :=
  match node.config.mode, node.lifecycle with
  | .compile, .compiled expression => expression.code.handles
  | _, _ =>
    if linked then (node.references.toOption.getD []).filterMap session.registry.get? else []

/-- Whether the expression of a name depends on the node of the other name. -/
def dependsOn (session : Session) (name other : String) : Bool :=
  match session.find? name, session.names.lookup other with
  | some (_, .expression linked node), some target =>
    (session.dependencies linked node).contains target
  | _, _ => false

variable {session now next : Session} {name other : String} {id : NodeId} {linked : Bool}
  {node : ExpressionNode NodeId} {expression : Compiled NodeId}

theorem dependsOn_of_mem (found : session.find? name = some (id, .expression linked node))
    {target : NodeId} (named : session.names.lookup other = some target)
    (member : target ∈ session.dependencies linked node) : session.dependsOn name other = true := by
  unfold dependsOn
  rw [found, named]
  exact List.contains_iff_mem.mpr member

/-- What a lookup finds now under a tag that the tree refers to is registered there. -/
theorem mem_registered {root : Node} (read : node.root = .ok root) {tag : Int}
    (referred : tag ∈ root.references) {target : NodeId}
    (found : (session.world linked).handle? tag = some target) :
    target ∈
      if linked then (node.references.toOption.getD []).filterMap session.registry.get? else [] := by
  cases linked with
  | false => cases found
  | true =>
    rw [handle?_world] at found
    rw [if_pos rfl, ExpressionNode.references, read]
    exact List.mem_filterMap.mpr ⟨tag, referred, registered_of_producer? found⟩

/-- The leaves of an expression find nodes that it depends on. -/
theorem dependencies_of_compile (genuine : node.Genuine)
    (made : (node.compile (session.world linked)).outcome = .ok expression) :
    ∃ before source,
      (TickGraph.compile node.config before source).outcome = .ok expression ∧
      ∀ tag ∈ expression.root.references, ∀ target,
        node.config.mode.handle? before (session.world linked) tag = some target →
          target ∈ session.dependencies linked node := by
  rcases ExpressionNode.compile_ok_cases made with held | ⟨source, held, success⟩
  · obtain ⟨before, source, success⟩ := genuine expression held
    refine ⟨before, source, success, ?_⟩
    intro tag referred target found
    unfold dependencies
    rw [held]
    cases mode : node.config.mode with
    | compile =>
      rw [mode] at found
      exact Compiled.mem_handles success mode referred found
    | tick =>
      rw [mode] at found
      have read : node.root = .ok expression.root := by rw [ExpressionNode.root, held]
      exact mem_registered read referred found
  · refine ⟨_, source, success, ?_⟩
    intro tag referred target found
    have read : node.root = .ok expression.root := by
      rw [ExpressionNode.root, held]
      exact (admits_of_compile success).1
    have present : (session.world linked).handle? tag = some target := by
      cases mode : node.config.mode <;> rw [mode] at found <;> exact found
    have registered := mem_registered read referred present
    unfold dependencies
    rw [held]
    cases node.config.mode <;> exact registered

theorem Refreshed.mode_handle?_eq (refreshed : session.Refreshed now) (mode : ReferenceMode)
    (before : World NodeId) (linked : Bool) (tag : Int) :
    mode.handle? before (now.world linked) tag = mode.handle? before (session.world linked) tag := by
  cases mode with
  | compile => rfl
  | tick => exact refreshed.handle?_eq linked tag

/-- Wherever updates have led to, a call of an expression gives the same if the nodes that it depends
on have the same values. -/
theorem call_congr (genuine : node.Genuine)
    (made : (node.compile (session.world linked)).outcome = .ok expression)
    (first : session.Refreshed now) (second : session.Refreshed next)
    (same : ∀ target ∈ session.dependencies linked node, next.nodes[target]? = now.nodes[target]?) :
    (expression.call (next.world linked)).outcome = (expression.call (now.world linked)).outcome := by
  obtain ⟨before, source, success, depends⟩ := dependencies_of_compile genuine made
  have leaves : ∀ tag ∈ expression.root.live (node.config.mode.leaf before (now.world linked)),
      node.config.mode.leaf before (next.world linked) tag =
        node.config.mode.leaf before (now.world linked) tag := by
    intro tag live
    have referred := (expression.root.live_sublist _).subset live
    unfold ReferenceMode.leaf
    rw [first.mode_handle?_eq, second.mode_handle?_eq]
    cases found : node.config.mode.handle? before (session.world linked) tag with
    | none => rfl
    | some target =>
      dsimp only
      rw [value_world, value_world, scalar, scalar, same target (depends tag referred target found)]
  rw [call_of_compile success, call_of_compile success, (expression.root.meaning_congr leaves).1]

end Session

end TickGraph
