import TickGraph.ExpressionNode
import TickGraph.Proofs.AccessTrace

namespace TickGraph

/-- The tree that the line about a finished compilation shows. -/
def Event.compiled? : Event → Option Node
  | .notice (.compiled root) => some root
  | _ => none

variable {H : Type}

theorem Code.lines_visit (config : Config) (world : World H) (place : Path × Node) :
    (Code.visit config world place).events.filterMap Event.compiled? = [] :=
  Code.filterMap_visit (fun _ => rfl) (fun _ => rfl) (fun _ _ => rfl) (fun _ _ => rfl) config world
    place

/-- A compilation that succeeds ends with its line, and one that fails logs no such line. -/
theorem lines_compile (config : Config) (world : World H) (source : Source) :
    (compile config world source).events.filterMap Event.compiled? =
      (compile config world source).outcome.toOption.toList.map Compiled.root := by
  cases read : source.root with
  | error fault =>
    rw [compile_of_fault read]
    rfl
  | ok root =>
    cases walk : (forM (root.located Path.graph) (Code.visit config world)).outcome with
    | error error =>
      have silent : (forM (root.located Path.graph) (Code.visit config world)).events.filterMap
          Event.compiled? = [] := by
        rw [List.filterMap_eq_nil_iff]
        intro event member
        obtain ⟨place, _, inside⟩ := Traced.mem_forM member
        exact List.filterMap_eq_nil_iff.mp (Code.lines_visit config world place) event inside
      rw [compile_of_walk_error read walk, silent]
      rfl
    | ok u =>
      have visits := Traced.outcome_of_forM walk
      have admitted := (config.admits_iff_visits world root Path.graph).mpr visits
      have silent : (config.walkEvents world root Path.graph).filterMap Event.compiled? = [] := by
        rw [Config.walkEvents, List.filterMap_flatMap, List.flatMap_eq_nil_iff]
        exact fun place _ => Code.lines_visit config world place
      rw [compile_of_admits read admitted, List.filterMap_append, silent]
      rfl

theorem Compiled.lines_call {config : Config} {before : World H} {source : Source}
    {expression : Compiled H} (success : (compile config before source).outcome = .ok expression)
    (now : World H) : (expression.call now).events.filterMap Event.compiled? = [] := by
  rw [List.filterMap_eq_nil_iff]
  intro event member
  obtain ⟨tag, _, consulted⟩ := Compiled.mem_call_events success member
  rcases ReferenceMode.mem_leafEvents consulted with finding | reading
  · have silent : (config.mode.findEvents now tag).filterMap Event.compiled? = [] := by
      cases config.mode with
      | compile => rfl
      | tick => exact now.filterMap_findEvents (fun _ => rfl) (fun _ => rfl) tag
    exact List.filterMap_eq_nil_iff.mp silent event finding
  · subst event; rfl

/-- The compiled expression of a node that has one. -/
def Lifecycle.expression? : Lifecycle H → Option (Compiled H)
  | .uncompiled _ => none
  | .compiled expression => some expression

namespace ExpressionNode

variable {node : ExpressionNode H} {world : World H}

/-- What compiling a node now gives, if that has not happened before and succeeds. -/
def compilation? (node : ExpressionNode H) (world : World H) : Option (Compiled H) :=
  match node.lifecycle with
  | .uncompiled source => (TickGraph.compile node.config world source).outcome.toOption
  | .compiled _ => none

/-- The compiled expression of a node came from a compilation with the configuration of the node. -/
def Genuine (node : ExpressionNode H) : Prop :=
  ∀ expression, node.lifecycle = .compiled expression →
    ∃ before source, (TickGraph.compile node.config before source).outcome = .ok expression

/-- How an operation that compiled `made`, had these events and stored this result takes a node to
the next one. It compiles a node that was not compiled, from the graph that this one held. The line
about a compilation stands once for each that was made. A node that was compiled before consults the
outside in calls only, and one that looks its references up once does not look them up again. -/
structure Advance (world : World H) (made : Option (Compiled H)) (events : List Event)
    (result : Option Float) (node next : ExpressionNode H) : Prop where
  config : next.config = node.config
  lifecycle : next.lifecycle = made.elim node.lifecycle .compiled
  origin : ∀ expression, made = some expression → ∃ source, node.lifecycle = .uncompiled source ∧
    (TickGraph.compile node.config world source).outcome = .ok expression ∧
    (node.config.mode = .compile →
      events.filterMap Event.lookup? = (TickGraph.compile node.config world source).lookups)
  lines : events.filterMap Event.compiled? = made.toList.map Compiled.root
  value : next.value = result.getD node.value
  calls : ∀ expression, node.lifecycle = .compiled expression →
    ∀ event ∈ events, event ∈ (expression.call world).events

theorem compile_of_compiled {expression : Compiled H} (made : node.lifecycle = .compiled expression)
    (world : World H) : node.compile world = ⟨node, [], .ok expression⟩ := by
  unfold ExpressionNode.compile
  rw [made]

theorem compile_of_success {source : Source} {expression : Compiled H}
    (held : node.lifecycle = .uncompiled source)
    (success : (TickGraph.compile node.config world source).outcome = .ok expression) :
    node.compile world =
      ⟨⟨node.config, .compiled expression, node.value⟩,
        (TickGraph.compile node.config world source).events, .ok expression⟩ := by
  unfold ExpressionNode.compile
  simp only [held, success]

theorem compile_of_failure {source : Source} {error : CompileError}
    (held : node.lifecycle = .uncompiled source)
    (failure : (TickGraph.compile node.config world source).outcome = .error error) :
    node.compile world =
      ⟨node, (TickGraph.compile node.config world source).events,
        .error (Failure.ofCompile error)⟩ := by
  unfold ExpressionNode.compile
  simp only [held, failure]

theorem compilation?_of_compiled {expression : Compiled H}
    (made : node.lifecycle = .compiled expression) (world : World H) :
    node.compilation? world = none := by
  unfold compilation?
  rw [made]

theorem compilation?_eq_some_iff {expression : Compiled H} :
    node.compilation? world = some expression ↔ ∃ source, node.lifecycle = .uncompiled source ∧
      (TickGraph.compile node.config world source).outcome = .ok expression := by
  unfold compilation?
  cases held : node.lifecycle with
  | compiled other => simp
  | uncompiled source =>
    simp only [Lifecycle.uncompiled.injEq, exists_eq_left']
    cases outcome : (TickGraph.compile node.config world source).outcome with
    | ok other => simp [Except.toOption]
    | error error => simp [Except.toOption]

theorem Advance.idle (world : World H) (node : ExpressionNode H) :
    Advance world none [] none node node := by
  refine ⟨rfl, rfl, ?_, rfl, rfl, ?_⟩
  · intro expression made
    cases made
  · intro expression held event none
    cases none

/-- Compiling makes an expression at most once, and leaves the value as it is. -/
theorem Advance.compile (node : ExpressionNode H) (world : World H) :
    Advance world (node.compilation? world) (node.compile world).events none node
      (node.compile world).node := by
  cases held : node.lifecycle with
  | compiled expression =>
    rw [compile_of_compiled held, compilation?_of_compiled held]
    exact .idle world node
  | uncompiled source =>
    have lines := lines_compile node.config world source
    have made : node.compilation? world =
        (TickGraph.compile node.config world source).outcome.toOption := by
      unfold compilation?
      rw [held]
    rw [made]
    cases outcome : (TickGraph.compile node.config world source).outcome with
    | ok expression =>
      rw [compile_of_success held outcome]
      rw [outcome] at lines
      refine ⟨rfl, rfl, ?_, lines, rfl, ?_⟩
      · intro other same
        cases same
        exact ⟨source, held, outcome, fun _ => rfl⟩
      · intro old before
        cases held.symm.trans before
    | error error =>
      rw [compile_of_failure held outcome]
      rw [outcome] at lines
      refine ⟨rfl, rfl, ?_, lines, rfl, ?_⟩
      · intro other same
        cases same
      · intro old before
        cases held.symm.trans before

section

variable {made : Option (Compiled H)} {events : List Event} {result : Option Float}
  {next : ExpressionNode H}

theorem Advance.expression? (advance : Advance world made events result node next) :
    next.lifecycle.expression?.toList = made.toList ++ node.lifecycle.expression?.toList := by
  rw [advance.lifecycle]
  cases made with
  | none => rfl
  | some expression =>
    obtain ⟨source, held, _⟩ := advance.origin expression rfl
    rw [held]
    rfl

/-- An expression that a node has was made in this operation, or the node had it before. -/
theorem Advance.made_or_kept (advance : Advance world made events result node next)
    {expression : Compiled H} (held : next.lifecycle = .compiled expression) :
    made = some expression ∨ made = none ∧ node.lifecycle = .compiled expression := by
  have taken := advance.lifecycle
  rw [held] at taken
  cases made with
  | none => exact Or.inr ⟨rfl, taken.symm⟩
  | some other =>
    cases taken
    exact Or.inl rfl

/-- What is compiled stays compiled, and nothing is compiled again. -/
theorem Advance.kept (advance : Advance world made events result node next)
    {expression : Compiled H} (held : node.lifecycle = .compiled expression) :
    next.lifecycle = .compiled expression := by
  have taken := advance.lifecycle
  cases made with
  | none => exact taken.trans held
  | some other =>
    obtain ⟨source, before, _⟩ := advance.origin other rfl
    cases before.symm.trans held

theorem Advance.genuine (advance : Advance world made events result node next)
    (genuine : node.Genuine) : next.Genuine := by
  intro expression held
  rw [advance.config]
  rcases advance.made_or_kept held with made | ⟨_, before⟩
  · obtain ⟨source, _, success, _⟩ := advance.origin expression made
    exact ⟨world, source, success⟩
  · exact genuine expression before

end

theorem lifecycle_compile {expression : Compiled H}
    (success : (node.compile world).outcome = .ok expression) :
    (node.compile world).node.lifecycle = .compiled expression := by
  cases held : node.lifecycle with
  | compiled old =>
    rw [compile_of_compiled held] at success ⊢
    cases success
    exact held
  | uncompiled source =>
    cases outcome : (TickGraph.compile node.config world source).outcome with
    | ok made =>
      rw [compile_of_success held outcome] at success ⊢
      cases success
      rfl
    | error error =>
      rw [compile_of_failure held outcome] at success
      cases success

theorem mem_call?_events {event : Event} (member : event ∈ (node.call? world).events) :
    ∃ expression, node.lifecycle = .compiled expression ∧
      event ∈ (expression.call world).events := by
  unfold call? at member
  cases held : node.lifecycle with
  | uncompiled source =>
    rw [held] at member
    cases member
  | compiled expression =>
    rw [held] at member
    rcases Traced.mem_bind member with inside | ⟨x, _, none⟩
    · exact ⟨expression, rfl, inside⟩
    · cases none

theorem Advance.call (genuine : node.Genuine) (world : World H) :
    Advance world none (node.call? world).events none node node := by
  refine ⟨rfl, rfl, ?_, ?_, rfl, ?_⟩
  · intro expression made
    cases made
  · refine List.filterMap_eq_nil_iff.mpr ?_
    intro event member
    obtain ⟨expression, held, inside⟩ := mem_call?_events member
    obtain ⟨before, source, success⟩ := genuine expression held
    exact List.filterMap_eq_nil_iff.mp (Compiled.lines_call success world) event inside
  · intro expression held event member
    obtain ⟨other, same, inside⟩ := mem_call?_events member
    cases held.symm.trans same
    exact inside

theorem evaluate_of_error {failure : Failure}
    (failed : (node.compile world).outcome = .error failure) :
    node.evaluate world =
      ⟨(node.compile world).node, (node.compile world).events, .error failure⟩ := by
  unfold ExpressionNode.evaluate
  simp only [failed]

theorem evaluate_of_ok {expression : Compiled H} {x : Float}
    (success : (node.compile world).outcome = .ok expression)
    (value : (expression.call world).outcome = .ok x) :
    node.evaluate world =
      ⟨⟨node.config, .compiled expression, x⟩,
        (node.compile world).events ++ (expression.call world).events, .ok x⟩ := by
  unfold ExpressionNode.evaluate
  simp only [success, value, lifecycle_compile success]

theorem evaluate_of_unread {expression : Compiled H} {error : OutOfRange}
    (success : (node.compile world).outcome = .ok expression)
    (unread : (expression.call world).outcome = .error error) :
    node.evaluate world =
      ⟨(node.compile world).node, (node.compile world).events ++ (expression.call world).events,
        .error (Failure.ofRange error)⟩ := by
  unfold ExpressionNode.evaluate
  simp only [success, unread]

/-- Evaluating compiles and then calls, and stores a result if there is one. -/
theorem Advance.evaluate (genuine : node.Genuine) (world : World H) :
    Advance world (node.compilation? world) (node.evaluate world).events
      (node.evaluate world).outcome.toOption node (node.evaluate world).node := by
  have compiling := Advance.compile node world
  cases made : (node.compile world).outcome with
  | error failure =>
    rw [evaluate_of_error made]
    exact compiling
  | ok expression =>
    have held := lifecycle_compile made
    obtain ⟨before, source, success⟩ := compiling.genuine genuine expression held
    have lines : ((node.compile world).events ++ (expression.call world).events).filterMap
        Event.compiled? = (node.compilation? world).toList.map Compiled.root := by
      rw [List.filterMap_append, Compiled.lines_call success, List.append_nil]
      exact compiling.lines
    have origin : ∀ fresh, node.compilation? world = some fresh →
        ∃ source, node.lifecycle = .uncompiled source ∧
          (TickGraph.compile node.config world source).outcome = .ok fresh ∧
          (node.config.mode = .compile →
            ((node.compile world).events ++ (expression.call world).events).filterMap
              Event.lookup? = (TickGraph.compile node.config world source).lookups) := by
      intro fresh compiled
      obtain ⟨graph, uncompiled, compiles, lookups⟩ := compiling.origin fresh compiled
      refine ⟨graph, uncompiled, compiles, ?_⟩
      intro once
      have silent := Compiled.lookups_call_eq_nil success (compiling.config ▸ once) world
      rw [Traced.lookups] at silent
      rw [List.filterMap_append, silent, List.append_nil]
      exact lookups once
    have calls : ∀ old, node.lifecycle = .compiled old →
        ∀ event ∈ (node.compile world).events ++ (expression.call world).events,
          event ∈ (old.call world).events := by
      intro old before event member
      rw [compile_of_compiled before] at member made
      cases made
      exact member
    cases called : (expression.call world).outcome with
    | ok x =>
      have lifecycle := held.symm.trans compiling.lifecycle
      rw [evaluate_of_ok made called]
      exact ⟨rfl, lifecycle, origin, lines, rfl, calls⟩
    | error error =>
      rw [evaluate_of_unread made called]
      exact ⟨compiling.config, compiling.lifecycle, origin, lines, compiling.value, calls⟩

end ExpressionNode

end TickGraph
