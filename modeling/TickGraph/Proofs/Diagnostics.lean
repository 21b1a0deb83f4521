import TickGraph.Proofs.Acceptance
import TickGraph.Proofs.CompileOutcome
import TickGraph.Proofs.Places

namespace TickGraph

/-- Lookups report nodes without a value themselves; all other notices are the compiler's. -/
def Notice.ofCompiler : Notice → Bool
  | .valueless _ => false
  | _ => true

/-- What the compiler reports in a run, in order. -/
def Traced.compilerNotices {ε α : Type} (run : Traced ε α) : List Notice :=
  run.notices.filter Notice.ofCompiler

def Notice.line (notice : Notice) : Level × Text :=
  (notice.level, notice.text)

/-- The lines that the compiler logs in a run. -/
def Traced.compilerLines {ε α : Type} (run : Traced ε α) : List (Level × Text) :=
  run.compilerNotices.map Notice.line

/-- The operand of a piece of code that a step leads to. -/
def Code.operand? {H : Type} : Code H → Step → Option (Code H)
  | .variadic _ a _ _, .field .a => some a
  | .variadic _ _ b _, .field .b => some b
  | .variadic _ _ _ others, .other i => others[i]?
  | .unary _ v, .field .v => some v
  | .comparison _ left _, .field .left => some left
  | .comparison _ _ right, .field .right => some right
  | .conditional expr _ _, .field .expr => some expr
  | .conditional _ ifCode _, .field .ifNode => some ifCode
  | .conditional _ _ elseCode, .field .elseNode => some elseCode
  | _, _ => none

/-- The code that some steps lead to. -/
def Code.at? {H : Type} : Code H → List Step → Option (Code H)
  | code, [] => some code
  | code, step :: rest => (code.operand? step).bind fun operand => operand.at? rest

section Lowered

variable {H : Type} {leaf : Int → Code H}

theorem Node.lowers_eq_map (nodes : List Node) :
    Node.lowers leaf nodes = nodes.map (Node.lower leaf) := by
  induction nodes with
  | nil => rfl
  | cons node rest ih => rw [Node.lowers, ih, List.map_cons]

theorem Node.operand?_lower {node operand : Node} {step : Step}
    (member : (step, operand) ∈ node.operands) :
    (node.lower leaf).operand? step = some (operand.lower leaf) := by
  cases node with
  | number x => cases member
  | reference tag => cases member
  | unsupported tag raw => cases member
  | variadic op a b others =>
    obtain ⟨rfl, rfl⟩ | ⟨rfl, rfl⟩ | ⟨i, rfl, present⟩ := Node.mem_operands_variadic.mp member
    · rfl
    · rfl
    · simp only [Node.lower, Code.operand?, Node.lowers_eq_map, List.getElem?_map, present]
      rfl
  | unary op v =>
    obtain ⟨rfl, rfl⟩ := Node.mem_operands_unary.mp member
    rfl
  | comparison op left right =>
    obtain ⟨rfl, rfl⟩ | ⟨rfl, rfl⟩ := Node.mem_operands_comparison.mp member
    · rfl
    · rfl
  | conditional expr ifNode elseNode =>
    obtain ⟨rfl, rfl⟩ | ⟨rfl, rfl⟩ | ⟨rfl, rfl⟩ := Node.mem_operands_conditional.mp member
    · rfl
    · rfl
    · rfl

/-- The code of a node stands in the code of its tree where the node stands in the tree. -/
theorem Node.at?_lower {root node : Node} {steps : List Step}
    (present : root.at? steps = some node) :
    (root.lower leaf).at? steps = some (node.lower leaf) := by
  induction steps generalizing root with
  | nil =>
    cases present
    rfl
  | cons step rest ih =>
    obtain ⟨operand, member, below⟩ := Node.at?_cons.mp present
    simp only [Code.at?, Node.operand?_lower member, Option.bind_some, ih below]

end Lowered

variable {H : Type}

/-- The line about a leaf that becomes zero: about a node without an evaluation, and about a
reference that is looked up now and not found. Where there is no lookup no reference is found. -/
def ReferenceMode.zeroLine? (mode : ReferenceMode) (world : World H) :
    Path × Node → Option (Level × Text)
  | (path, .reference tag) =>
    if mode = .compile ∧ (world.handle? tag).isNone then
      some (.warning, path.render ++ ": unresolved reference to node " ++ toString tag ++
        ", compiled to constant 0.0")
    else none
  | (path, .unsupported tag _) =>
    some (.warning, path.render ++ ": " ++
      (if tag = "set" ∨ tag = "block" then "reserved statement" else "unknown operator") ++ " '" ++
      tag ++ "' compiled to constant 0.0")
  | _ => none

/-- The line about a tree that was compiled. -/
def Node.compiledLine (root : Node) : Level × Text :=
  (.debug, "Compiled expression " ++ root.formula ++ " (nodes=" ++ toString root.count ++
    ", depth=" ++ toString root.depth ++ ")")

theorem World.mem_notices_findEvents {world : World H} {tag : Int} {notice : Notice}
    (member : notice ∈ (world.findEvents tag).filterMap Event.notice?) :
    notice = .valueless tag := by
  obtain ⟨event, inside, shown⟩ := List.mem_filterMap.mp member
  rcases World.mem_findEvents inside with same | same <;> subst same <;> cases shown
  rfl

theorem World.compilerNotices_findEvents (world : World H) (tag : Int) :
    ((world.findEvents tag).filterMap Event.notice?).filter Notice.ofCompiler = [] := by
  refine List.filter_eq_nil_iff.mpr fun notice member => ?_
  rw [World.mem_notices_findEvents member]
  exact Bool.false_ne_true

/-- Only statements have a tag that is reserved and no evaluation. -/
theorem isReserved_of_unsupported {tag : Text}
    (unsupported : ∀ op : Operator, op.tag = tag → op.supported = false) :
    isReserved tag = true ↔ tag = "set" ∨ tag = "block" := by
  unfold isReserved
  constructor
  · intro reserved
    obtain ⟨op, found⟩ := Option.isSome_iff_exists.mp reserved
    have named := Operator.tag_of_ofTag? found
    have excluded := unsupported op named
    cases op with
    | statement s =>
      cases s with
      | set => exact Or.inl named.symm
      | block => exact Or.inr named.symm
    | variadic op => cases op <;> cases excluded
    | unary op => cases excluded
    | comparison op => cases excluded
    | reference => cases excluded
    | literal => cases excluded
    | conditional => cases excluded
  · rintro (same | same) <;> subst same <;> rfl

/-- At a place that it does not refuse the compiler logs the line about a leaf that becomes zero. -/
theorem Code.compilerLines_visit {config : Config} {world : World H} {place : Path × Node}
    (sound : place.2.Sound) (taken : (Code.visit config world place).outcome = .ok ()) :
    (Code.visit config world place).compilerLines = (config.mode.zeroLine? world place).toList := by
  obtain ⟨path, node⟩ := place
  cases node with
  | reference tag =>
    unfold Code.visit ReferenceMode.zeroLine?
    cases config.mode with
    | tick => rfl
    | compile =>
      simp only [World.find_eq, Traced.ok_bind, Traced.compilerLines, Traced.compilerNotices,
        Traced.notices, List.filterMap_append, List.filter_append, World.compilerNotices_findEvents,
        List.nil_append]
      cases world.handle? tag <;> rfl
  | unsupported tag raw =>
    have lax : config.strict = false := by
      have admitted := (Code.visit_outcome_iff config world path (.unsupported tag raw)).mp taken
      exact Bool.eq_false_iff.mpr fun strict => admitted strict tag raw rfl
    have reserved : isReserved tag = true ↔ tag = "set" ∨ tag = "block" := by
      cases sound with
      | applied operator => cases operator
      | kept type unsupported => exact isReserved_of_unsupported unsupported
    unfold Code.visit ReferenceMode.zeroLine?
    simp only [lax, Bool.false_eq_true, if_false, ← reserved]
    rfl
  | _ => rfl

theorem Traced.compilerLines_append {ε α : Type} (front back : List Event) (outcome : Except ε α) :
    (⟨front ++ back, outcome⟩ : Traced ε α).compilerLines =
      (⟨front, outcome⟩ : Traced ε α).compilerLines ++
        (⟨back, outcome⟩ : Traced ε α).compilerLines := by
  simp only [Traced.compilerLines, Traced.compilerNotices, Traced.notices, List.filterMap_append,
    List.filter_append, List.map_append]

/-- A walk logs the lines of its visits, one after the other. -/
theorem Code.compilerLines_visits {ε α : Type} {config : Config} {world : World H}
    {places : List (Path × Node)} (sound : ∀ place ∈ places, place.2.Sound)
    (taken : ∀ place ∈ places, (Code.visit config world place).outcome = .ok ())
    (outcome : Except ε α) :
    (⟨places.flatMap fun place => (Code.visit config world place).events, outcome⟩ :
        Traced ε α).compilerLines =
      places.filterMap (config.mode.zeroLine? world) := by
  induction places with
  | nil => rfl
  | cons place rest ih =>
    have here : (⟨(Code.visit config world place).events, outcome⟩ : Traced ε α).compilerLines =
        (config.mode.zeroLine? world place).toList :=
      Code.compilerLines_visit (sound place (List.mem_cons_self ..))
        (taken place (List.mem_cons_self ..))
    have later := ih (fun other after => sound other (List.mem_cons_of_mem _ after))
      fun other after => taken other (List.mem_cons_of_mem _ after)
    rw [List.flatMap_cons, Traced.compilerLines_append, here, later, List.filterMap_cons]
    cases config.mode.zeroLine? world place <;> rfl

/-- The leaves with a line are those whose code is the constant zero, apart from numbers. -/
theorem ReferenceMode.isSome_zeroLine?_iff (mode : ReferenceMode) (world : World H) (path : Path)
    (node : Node) :
    (mode.zeroLine? world (path, node)).isSome = true ↔
      (∀ x, node ≠ .number x) ∧ node.lower (mode.leafCode world) = .constant 0 := by
  cases node with
  | number x => simp [ReferenceMode.zeroLine?]
  | reference tag =>
    cases mode with
    | tick => simp [ReferenceMode.zeroLine?, Node.lower, ReferenceMode.leafCode]
    | compile =>
      cases found : world.handle? tag <;>
        simp [ReferenceMode.zeroLine?, Node.lower, ReferenceMode.leafCode, found]
  | unsupported tag raw => simp [ReferenceMode.zeroLine?, Node.lower]
  | _ => simp [ReferenceMode.zeroLine?, Node.lower]

/-- What the compiler logs when it compiles a graph that was read. If it succeeds, these are the
lines about the leaves that became zero, in pre-order and each once, and then the line about the
tree; a leaf that is no number has a line exactly if the constant zero stands in its place. If it
fails, these are the lines about the nodes before the first unsupported one; none of these is
unsupported itself, so they are references. -/
theorem compile_diagnostics {graph : Json} {path : Path} {root : Node}
    (parsed : Node.read graph path = .ok root) {source : Source} (given : source.root = .ok root)
    (config : Config) (world : World H) :
    (root.located Path.graph).map Prod.snd = root.preorder ∧
    ((root.located Path.graph).map Prod.fst).Nodup ∧
    (∀ expression, (compile config world source).outcome = .ok expression →
      (compile config world source).compilerLines =
        (root.located Path.graph).filterMap (config.mode.zeroLine? world) ++ [root.compiledLine] ∧
      ∀ steps node, root.at? steps = some node →
        ((config.mode.zeroLine? world (Path.graph.along steps, node)).isSome = true ↔
          (∀ x, node ≠ .number x) ∧ expression.code.at? steps = some (.constant 0))) ∧
    ∀ error, (compile config world source).outcome = .error error →
      config.strict = true ∧ ∃ before first, root.FirstUnsupported before first ∧
        error = .unsupported first ∧
        (compile config world source).compilerLines =
          before.filterMap (config.mode.zeroLine? world) := by
  have sound : ∀ place ∈ root.located Path.graph, place.2.Sound := by
    intro place member
    refine (Node.read_eq_ok_iff.mp parsed).sound place.2 ?_
    rw [← root.map_located Path.graph]
    exact List.mem_map_of_mem member
  refine ⟨root.map_located Path.graph, root.nodup_located Path.graph, ?_, ?_⟩
  · intro expression success
    obtain ⟨read, admitted⟩ := admits_of_compile success
    cases given.symm.trans read
    have visits := (config.admits_iff_visits world expression.root Path.graph).mp admitted
    constructor
    · rw [compile_of_admits read admitted, Traced.compilerLines_append, Config.walkEvents,
        Code.compilerLines_visits sound visits]
      rfl
    · intro steps node present
      rw [code_of_compile success, Node.at?_lower present, Option.some_inj]
      exact ReferenceMode.isSome_zeroLine?_iff ..
  · intro error failed
    rcases config.source_cases source with ⟨fault, unread⟩ |
      ⟨other, before, first, read, strict, unsupported⟩ | ⟨other, read, admitted⟩
    · cases given.symm.trans unread
    · cases given.symm.trans read
      rw [compile_of_first read strict unsupported] at failed ⊢
      cases failed
      refine ⟨strict, before, first, unsupported, rfl, ?_⟩
      obtain ⟨raw, after, split⟩ := unsupported.split
      refine Code.compilerLines_visits (fun place inside => sound place ?_) ?_ _
      · rw [split]
        exact List.mem_append_left _ inside
      · intro place inside
        exact (Code.visit_outcome_iff config world place.1 place.2).mpr
          fun _ => unsupported.clear place inside
    · rw [compile_of_admits read admitted] at failed
      cases failed

/-- The same reference is not found at two places. A strict compilation ends between them. -/
theorem compile_diagnostics_statement_between_references :
    let reference (tag : Int) : Json := .obj [("type", .str "value"), ("tag", .int tag)]
    let graph : Json := .obj [("type", .str "cond"), ("expr", reference 1),
      ("ifNode", .obj [("type", .str "add"), ("a", reference 2), ("b", .obj [("type", .str "set")]),
        ("others", .arr [reference 2])]), ("elseNode", .obj [("type", .str "Set")])]
    let world := World.ofEntries [(1, none)]
    let unresolved : Level × Text := (.warning,
      "graph.ifNode.a: unresolved reference to node 2, compiled to constant 0.0")
    (compile ⟨.compile, false⟩ world (.wire graph)).compilerLines =
      [unresolved, (.warning, "graph.ifNode.b: reserved statement 'set' compiled to constant 0.0"),
        (.warning,
          "graph.ifNode.others[0]: unresolved reference to node 2, compiled to constant 0.0"),
        (.warning, "graph.elseNode: unknown operator 'Set' compiled to constant 0.0"),
        (.debug, "Compiled expression cond(value#1, add(value#2, set?, value#2), Set?) " ++
          "(nodes=7, depth=3)")] ∧
      (compile ⟨.compile, true⟩ world (.wire graph)).compilerLines = [unresolved] := by
  intro reference graph world unresolved
  let set : Node := .unsupported "set" [("type", .str "set")]
  let root : Node := .conditional (.reference 1) (.variadic .add (.reference 2) set [.reference 2])
    (.unsupported "Set" [("type", .str "Set")])
  have parsed : Node.read graph Path.graph = .ok root := rfl
  have given : (Source.wire graph).root = .ok root := parsed
  have admitted : Config.Admits ⟨.compile, false⟩ root := fun strict => by cases strict
  obtain ⟨_, _, done, _⟩ := compile_diagnostics parsed given ⟨.compile, false⟩ world
  obtain ⟨lines, _⟩ := done _ (congrArg Traced.outcome (compile_of_admits given admitted))
  refine ⟨?_, by decide +kernel⟩
  rw [lines]
  decide +kernel

end TickGraph
