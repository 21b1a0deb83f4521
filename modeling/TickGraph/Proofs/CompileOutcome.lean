import TickGraph.Proofs.FailureAtomicity

namespace TickGraph

/-- The first unsupported node of a tree in pre-order, as a strict configuration reports it, and the
places before it. -/
structure Node.FirstUnsupported (root : Node) (before : List (Path × Node))
    (error : UnsupportedOperator) : Prop where
  split : ∃ raw after,
    root.located Path.graph = before ++ (error.path, .unsupported error.tag raw) :: after
  clear : ∀ place ∈ before, ∀ tag raw, Node.unsupported tag raw ≠ place.2

/-- What a strict configuration reports about a place. -/
def UnsupportedOperator.at? : Path × Node → Option UnsupportedOperator
  | (path, .unsupported tag _) => some ⟨path, tag⟩
  | _ => none

theorem UnsupportedOperator.at?_eq_some {place : Path × Node} {error : UnsupportedOperator}
    (reported : UnsupportedOperator.at? place = some error) :
    ∃ raw, place = (error.path, .unsupported error.tag raw) := by
  obtain ⟨path, node⟩ := place
  cases node with
  | unsupported tag raw =>
    cases reported
    exact ⟨raw, rfl⟩
  | _ => cases reported

theorem UnsupportedOperator.ne_of_at?_eq_none {place : Path × Node}
    (silent : UnsupportedOperator.at? place = none) (tag : Text) (raw : Json.Fields) :
    Node.unsupported tag raw ≠ place.2 := by
  obtain ⟨path, node⟩ := place
  intro same
  cases same
  cases silent

/-- A configuration admits a tree, or it is strict and there is a first node that it refuses. -/
theorem Config.admits_or_first (config : Config) (root : Node) :
    config.Admits root ∨
      config.strict = true ∧ ∃ before error, root.FirstUnsupported before error := by
  cases found : (root.located Path.graph).findSome? UnsupportedOperator.at? with
  | none =>
    left
    intro _ tag raw member
    rw [← root.map_located Path.graph] at member
    obtain ⟨place, inside, same⟩ := List.mem_map.mp member
    have silent := List.findSome?_eq_none_iff.mp found place inside
    exact UnsupportedOperator.ne_of_at?_eq_none silent tag raw same.symm
  | some error =>
    obtain ⟨before, place, after, split, reported, clear⟩ := List.findSome?_eq_some_iff.mp found
    obtain ⟨raw, same⟩ := UnsupportedOperator.at?_eq_some reported
    by_cases strict : config.strict = true
    · right
      refine ⟨strict, before, error, ⟨raw, after, by rw [split, same]⟩, ?_⟩
      intro other inside
      exact UnsupportedOperator.ne_of_at?_eq_none (clear other inside)
    · left
      intro lax
      exact absurd lax strict

variable {H : Type} {config : Config} {world : World H} {source : Source} {root : Node}

/-- A strict compilation visits the nodes before the first unsupported one, and fails there. -/
theorem compile_of_first {before : List (Path × Node)} {error : UnsupportedOperator}
    (read : source.root = .ok root) (strict : config.strict = true)
    (first : root.FirstUnsupported before error) :
    compile config world source =
      ⟨before.flatMap fun place => (Code.visit config world place).events,
        .error (.unsupported error)⟩ := by
  obtain ⟨raw, after, split⟩ := first.split
  have good : ∀ place ∈ before, (Code.visit config world place).outcome = .ok () := by
    intro place inside
    exact (Code.visit_outcome_iff config world place.1 place.2).mpr
      fun _ => first.clear place inside
  have refused : Code.visit config world (error.path, .unsupported error.tag raw) =
      ⟨[], .error error⟩ := by
    simp only [Code.visit, strict, if_true]
    rfl
  have walk : forM (root.located Path.graph) (Code.visit config world) =
      ⟨before.flatMap fun place => (Code.visit config world place).events, .error error⟩ := by
    rw [split, Traced.forM_of_error good (congrArg Traced.outcome refused), refused,
      List.append_nil]
  rw [compile_of_walk_error read (congrArg Traced.outcome walk), walk]

/-- A graph is malformed, or it has a first node that the configuration refuses, or it is admitted. -/
theorem Config.source_cases (config : Config) (source : Source) :
    (∃ fault, source.root = .error fault) ∨
    (∃ root before error, source.root = .ok root ∧ config.strict = true ∧
      root.FirstUnsupported before error) ∨
    ∃ root, source.root = .ok root ∧ config.Admits root := by
  cases read : source.root with
  | error fault => exact Or.inl ⟨fault, rfl⟩
  | ok root =>
    rcases config.admits_or_first root with admitted | ⟨strict, before, error, first⟩
    · exact Or.inr (Or.inr ⟨root, rfl, admitted⟩)
    · exact Or.inr (Or.inl ⟨root, before, error, rfl, strict, first⟩)

theorem compile_malformed_iff (config : Config) (world : World H) (source : Source)
    (fault : MalformedGraph) :
    (compile config world source).outcome = .error (.malformed fault) ↔
      source.root = .error fault := by
  constructor
  · intro failed
    rcases config.source_cases source with ⟨other, unread⟩ |
      ⟨root, before, error, read, strict, first⟩ | ⟨root, read, admitted⟩
    · rw [compile_of_fault unread] at failed
      cases failed
      exact unread
    · rw [compile_of_first read strict first] at failed
      cases failed
    · rw [compile_of_admits read admitted] at failed
      cases failed
  · intro unread
    rw [compile_of_fault unread]

theorem compile_unsupported_iff (config : Config) (world : World H) (source : Source)
    (error : UnsupportedOperator) :
    (compile config world source).outcome = .error (.unsupported error) ↔
      config.strict = true ∧ ∃ root before, source.root = .ok root ∧
        root.FirstUnsupported before error := by
  constructor
  · intro failed
    rcases config.source_cases source with ⟨fault, unread⟩ |
      ⟨root, before, other, read, strict, first⟩ | ⟨root, read, admitted⟩
    · rw [compile_of_fault unread] at failed
      cases failed
    · rw [compile_of_first read strict first] at failed
      cases failed
      exact ⟨strict, root, before, read, first⟩
    · rw [compile_of_admits read admitted] at failed
      cases failed
  · rintro ⟨strict, root, before, read, first⟩
    rw [compile_of_first read strict first]

theorem compile_ok_iff (config : Config) (world : World H) (source : Source) (root : Node) :
    (∃ expression, (compile config world source).outcome = .ok expression ∧
      expression.root = root) ↔ source.root = .ok root ∧ config.Admits root := by
  constructor
  · rintro ⟨expression, success, same⟩
    rw [← same]
    exact admits_of_compile success
  · rintro ⟨read, admitted⟩
    exact ⟨_, congrArg Traced.outcome (compile_of_admits read admitted), rfl⟩

/-- Two compilations of a graph end alike if both are strict or neither is, wherever they look their
references up and whether they do it now or later. -/
theorem root_compile_eq {K : Type} (strict : Bool) (mode other : ReferenceMode) (world : World H)
    (outside : World K) (source : Source) :
    (compile ⟨other, strict⟩ outside source).outcome.map Compiled.root =
      (compile ⟨mode, strict⟩ world source).outcome.map Compiled.root := by
  rcases Config.source_cases ⟨mode, strict⟩ source with ⟨fault, unread⟩ |
    ⟨root, before, error, read, refuses, first⟩ | ⟨root, read, admitted⟩
  · rw [compile_of_fault unread, compile_of_fault unread]
    rfl
  · have refusing : Config.strict ⟨other, strict⟩ = true := refuses
    rw [compile_of_first read refuses first, compile_of_first read refusing first]
    rfl
  · have taken : Config.Admits ⟨other, strict⟩ root := admitted
    rw [compile_of_admits read admitted, compile_of_admits read taken]
    rfl

/-- An error is an error everywhere. -/
theorem compile_error_anywhere {K : Type} {error : CompileError}
    (failed : (compile config world source).outcome = .error error) (outside : World K) :
    (compile config outside source).outcome = .error error := by
  have alike := root_compile_eq config.strict config.mode config.mode world outside source
  rw [failed] at alike
  exact Except.map_eq_error_iff.mp alike

/-- A step does not compile a node whose graph does not compile, and the node fails alike after it,
whatever the step was. -/
theorem Moment.refuses_next {moment : Moment} {id : NodeId} {linked : Bool}
    {node : ExpressionNode NodeId} {failure : Failure}
    (present : moment.session.nodes[id]? = some (.expression linked node))
    (genuine : node.Genuine) (refuses : node.Refuses (moment.session.world linked) failure) :
    ∃ next, moment.reply.session.nodes[id]? = some (.expression linked next) ∧
      next.Refuses (moment.reply.session.world linked) failure := by
  obtain ⟨next, after, advance⟩ := Moment.advance present genuine
  obtain ⟨graph, error, held, failed, same⟩ := refuses
  have idle : moment.compiled? id = none := by
    cases made : moment.compiled? id with
    | none => rfl
    | some expression =>
      obtain ⟨other, uncompiled, success, _⟩ := advance.origin expression made
      cases held.symm.trans uncompiled
      cases failed.symm.trans success
  have still : next.lifecycle = .uncompiled graph := by
    rw [advance.lifecycle, idle]
    exact held
  have again : (compile next.config (moment.session.world linked) graph).outcome =
      .error error := by
    rw [advance.config]
    exact failed
  exact ⟨next, after, graph, error, still, compile_error_anywhere again _, same⟩

/-- A node whose graph does not compile is never compiled, and every later attempt fails alike. -/
theorem SessionReach.refuses_again {history later : List Moment} {session last : Session}
    (reach : SessionReach history session) (further : SessionReach (later ++ history) last)
    {id : NodeId} {linked : Bool} {node : ExpressionNode NodeId} {failure : Failure}
    (present : session.nodes[id]? = some (.expression linked node))
    (refuses : node.Refuses (session.world linked) failure) :
    ∃ kept, last.nodes[id]? = some (.expression linked kept) ∧
      kept.Refuses (last.world linked) failure := by
  induction later generalizing last with
  | nil =>
    rw [← reach.unique further]
    exact ⟨node, present, refuses⟩
  | cons moment rest ih =>
    cases further with
    | @next _ before action previous =>
      obtain ⟨old, there, refused⟩ := ih previous
      exact @Moment.refuses_next ⟨before, action⟩ id linked old failure there
        (previous.recorded there).genuine refused

/-- How the compilation of a graph ends. If the graph is malformed, it ends with that fault before
anything is looked up or reported. Otherwise, in a strict configuration, it ends at the first
unsupported node in pre-order, having looked up the references before that node if references are
looked up while compiling. Otherwise it succeeds. No other outside and no other mode changes the
error or the success; so a node that has failed to compile fails alike at every later attempt of a
run. -/
theorem compile_outcome (config : Config) (world : World H) (graph : Json) :
    (∀ fault, (compile config world (.wire graph)).outcome = .error (.malformed fault) ↔
      Node.read graph Path.graph = .error fault) ∧
    (∀ fault, Node.read graph Path.graph = .error fault →
      (compile config world (.wire graph)).events = []) ∧
    (∀ error, (compile config world (.wire graph)).outcome = .error (.unsupported error) ↔
      config.strict = true ∧ ∃ root before, Node.read graph Path.graph = .ok root ∧
        root.FirstUnsupported before error) ∧
    (∀ root before error, Node.read graph Path.graph = .ok root → config.strict = true →
      root.FirstUnsupported before error →
        (compile config world (.wire graph)).reads = [] ∧
        (compile config world (.wire graph)).lookups =
          if config.mode = .compile ∧ world.lookup.isSome then
            before.filterMap fun place => place.2.tag?
          else []) ∧
    (∀ root, (∃ expression, (compile config world (.wire graph)).outcome = .ok expression ∧
        expression.root = root) ↔
      Node.read graph Path.graph = .ok root ∧
        (config.strict = true → ∀ tag raw, Node.unsupported tag raw ∉ root.preorder)) ∧
    (∀ (K : Type) (outside : World K) mode,
      (compile ⟨mode, config.strict⟩ outside (.wire graph)).outcome.map Compiled.root =
        (compile config world (.wire graph)).outcome.map Compiled.root) ∧
    ∀ (history : List Moment) (session : Session) (id : NodeId) (linked : Bool)
      (node : ExpressionNode NodeId) (failure : Failure), SessionReach history session →
      session.nodes[id]? = some (.expression linked node) →
      (node.compile (session.world linked)).outcome = .error failure →
        ∀ later last, SessionReach (later ++ history) last →
          ∃ kept, last.nodes[id]? = some (.expression linked kept) ∧
            (kept.compile (last.world linked)).outcome = .error failure := by
  refine ⟨?_, ?_, ?_, ?_, ?_, ?_, ?_⟩
  · exact compile_malformed_iff config world (.wire graph)
  · intro fault unread
    have malformed : (Source.wire graph).root = .error fault := unread
    rw [compile_of_fault malformed]
  · exact compile_unsupported_iff config world (.wire graph)
  · intro root before error read strict first
    have made : (Source.wire graph).root = .ok root := read
    rw [compile_of_first made strict first]
    exact ⟨Code.reads_visits config world before, Code.lookups_visits config world before⟩
  · exact compile_ok_iff config world (.wire graph)
  · intro K outside mode
    exact root_compile_eq config.strict config.mode mode world outside (.wire graph)
  · intro history session id linked node failure reach present failed later last further
    have refuses := ExpressionNode.compile_error_iff.mp failed
    obtain ⟨kept, there, refused⟩ := reach.refuses_again further present refuses
    exact ⟨kept, there, ExpressionNode.compile_error_iff.mpr refused⟩

/-- A reference stands before the statement that is refused, and another one behind it. -/
theorem compile_outcome_second_operand :
    let reference (tag : Int) : Json := .obj [("type", .str "value"), ("tag", .int tag)]
    let graph : Json := .obj [("type", .str "add"), ("a", reference 1),
      ("b", .obj [("type", .str "set")]), ("others", .arr [reference 2, .obj [("type", .str "Set")]])]
    let strict : Config := ⟨.compile, true⟩
    let world := World.ofEntries [(2, some (.float 1))]
    let error : UnsupportedOperator := ⟨Path.graph.field .b, "set"⟩
    (∃ root before, Node.read graph Path.graph = .ok root ∧ root.FirstUnsupported before error) ∧
      (compile strict world (.wire graph)).outcome = .error (.unsupported error) ∧
      (compile strict world (.wire graph)).lookups = [1] := by
  intro reference graph strict world error
  let root : Node := .variadic .add (.reference 1) (.unsupported "set" [("type", .str "set")])
    [.reference 2, .unsupported "Set" [("type", .str "Set")]]
  let before : List (Path × Node) :=
    [(Path.graph, root), (Path.graph.field .a, .reference 1)]
  have read : Node.read graph Path.graph = .ok root := rfl
  have first : root.FirstUnsupported before error := by
    refine ⟨⟨[("type", .str "set")], _, rfl⟩, ?_⟩
    intro place inside tag raw same
    rcases List.mem_cons.mp inside with here | later
    · subst here
      cases same
    · rw [List.mem_singleton.mp later] at same
      cases same
  obtain ⟨_, _, refused, consulted, _⟩ := compile_outcome strict world graph
  refine ⟨⟨root, before, read, first⟩, (refused error).mpr ⟨rfl, root, before, read, first⟩, ?_⟩
  exact (consulted root before error read rfl first).2

end TickGraph
