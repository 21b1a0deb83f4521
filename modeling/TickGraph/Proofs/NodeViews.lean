import TickGraph.Proofs.Lifecycle
import TickGraph.Proofs.NumberText

namespace TickGraph

section Formulas

variable {node : Node}

/-- Every formula has a character that stands in no other text in place of a formula. -/
theorem Node.formula_ne_malformed (node : Node) : node.formula ≠ "<malformed>" := by
  intro same
  obtain ⟨word, tail, spelled, text⟩ := node.exists_spelled
  rw [same] at text
  have absent : .char '#' ∉ ("<malformed>" : Text).letters ∧
      .char '?' ∉ ("<malformed>" : Text).letters ∧
      .char '(' ∉ ("<malformed>" : Text).letters := by decide
  have bracket : .char '<' ∈ ("<malformed>" : Text).letters := by decide
  rw [text] at absent bracket
  cases spelled with
  | number x =>
    rw [List.append_nil, Text.letters_coe] at bracket
    obtain ⟨c, inside, sign⟩ := List.mem_map.mp bracket
    cases sign
    exact (Numerals.ofDouble x).notMem rfl inside
  | reference tag => exact absent.1 (by simp [Text.letters_coe])
  | unsupported tag raw => exact absent.2.1 (by simp)
  | operator named operands => exact absent.2.2 (by simp)

theorem Node.formula_ne_empty (node : Node) : node.formula ≠ "" := by
  intro same
  obtain ⟨word, tail, spelled, text⟩ := node.exists_spelled
  rw [same] at text
  obtain ⟨noWord, noTail⟩ := List.append_eq_nil_iff.mp text.symm
  cases spelled with
  | number x => exact Double.text_ne_empty x (List.map_eq_nil_iff.mp (Text.letters_coe _ ▸ noWord))
  | reference tag => simp [Text.letters_coe] at noWord
  | unsupported tag raw => cases noTail
  | operator named operands => cases noTail

end Formulas

/-- The one line about a node with a formula, or with a word in its place. -/
def summaryLine (compiled : Bool) (formula : Text) (value : Float) : Text :=
  "AnimatedExpressionNode(" ++ (if compiled then "compiled" else "uncompiled") ++ ", " ++ formula ++
    ", value=" ++ Double.text value ++ ")"

theorem summaryLine_inj {compiled : Bool} {formula other : Text} {value : Float}
    (same : summaryLine compiled formula value = summaryLine compiled other value) :
    formula = other := by
  unfold summaryLine at same
  simpa only [Text.append_assoc, Text.append_right_inj, Text.append_left_inj] using same

theorem ExpressionNode.summary_eq {H : Type} (node : ExpressionNode H) :
    node.summary =
      summaryLine node.isCompiled (node.formula?.getD "<malformed>") node.value := by
  unfold ExpressionNode.summary summaryLine
  rfl

section Trees

variable {H : Type} {node : ExpressionNode H} {source : Source}

theorem ExpressionNode.root_of_uncompiled (held : node.lifecycle = .uncompiled source) :
    node.root = source.root := by
  unfold ExpressionNode.root
  rw [held]

theorem ExpressionNode.isCompiled_of_uncompiled (held : node.lifecycle = .uncompiled source) :
    node.isCompiled = false := by
  unfold ExpressionNode.isCompiled
  rw [held]

/-- A node has no formula if it has no tree. -/
theorem ExpressionNode.formula?_eq_none_iff :
    node.formula? = none ↔ ∃ fault, node.root = .error fault := by
  unfold ExpressionNode.formula?
  cases node.root <;> simp [Except.toOption]

/-- The word in place of a formula stands in the summary of a node without a tree, and in no other. -/
theorem ExpressionNode.getD_formula?_iff :
    node.formula?.getD "<malformed>" = "<malformed>" ↔ ∃ fault, node.root = .error fault := by
  unfold ExpressionNode.formula?
  cases node.root with
  | error fault => simp [Except.toOption]
  | ok root => simpa [Except.toOption] using root.formula_ne_malformed

end Trees

/-- No operation changes the tree of a node: a graph that is compiled was read into the tree that the
node shows from then on. -/
theorem ExpressionNode.Advance.root_eq {H : Type} {world : World H} {made : Option (Compiled H)}
    {events : List Event} {result : Option Float} {node next : ExpressionNode H}
    (advance : Advance world made events result node next) : next.root = node.root := by
  have taken := advance.lifecycle
  cases made with
  | none =>
    unfold ExpressionNode.root
    rw [taken]
    rfl
  | some expression =>
    obtain ⟨source, held, success, _⟩ := advance.origin expression rfl
    obtain ⟨read, _⟩ := admits_of_compile success
    unfold ExpressionNode.root
    rw [taken, held]
    exact read.symm

/-- Whatever a run does, its nodes keep their trees. -/
theorem SessionReach.root_kept {history later : List Moment} {session last : Session}
    (reach : SessionReach history session) (further : SessionReach (later ++ history) last)
    {id : NodeId} {linked : Bool} {node : ExpressionNode NodeId}
    (present : session.nodes[id]? = some (.expression linked node)) :
    ∃ kept, last.nodes[id]? = some (.expression linked kept) ∧ kept.root = node.root := by
  refine reach.preserves ?_ further present rfl
  intro _ _ _ _ old next advance same
  exact advance.root_eq.trans same

/-- A node that is compiled at any time of a run has the tree of its expression all the time. -/
theorem SessionReach.root_of_compiled {history later : List Moment} {session last : Session}
    (reach : SessionReach history session) (further : SessionReach (later ++ history) last)
    {id : NodeId} {linked : Bool} {node : ExpressionNode NodeId}
    (present : session.nodes[id]? = some (.expression linked node)) {moment : Moment}
    (member : moment ∈ later ++ history) {expression : Compiled NodeId}
    (made : moment.compiled? id = some expression) : node.root = .ok expression.root := by
  obtain ⟨kept, there, same⟩ := reach.root_kept further present
  have compilations := (further.recorded there).compilations
  have inside : expression ∈ kept.lifecycle.expression?.toList := by
    rw [← compilations]
    exact List.mem_filterMap.mpr ⟨moment, member, made⟩
  rw [← same]
  unfold ExpressionNode.root
  cases held : kept.lifecycle with
  | uncompiled source =>
    rw [held] at inside
    cases inside
  | compiled other =>
    rw [held] at inside
    rw [List.mem_singleton.mp inside]

/-- What the views of a name show: a step that asks for one of them gives the answer and leaves all as it
is, consults nothing and reports nothing. -/
structure Session.Shows (session : Session) (name : String)
    (references : Except MalformedGraph (List Int)) (formula : Option Text) (summary : Text) : Prop where
  references : session.step (.references name) =
    ⟨session, [], (references.map Answer.references).mapError Failure.malformed⟩
  formula : session.step (.formula name) = ⟨session, [], .ok (.text formula)⟩
  summary : session.step (.summary name) = ⟨session, [], .ok (.text (some summary))⟩

section Shows

variable {session : Session} {name : String} {id : NodeId} {linked : Bool}
  {node : ExpressionNode NodeId} (found : session.find? name = some (id, .expression linked node))

include found

theorem Session.shows_node :
    session.Shows name node.references node.formula?
      (summaryLine node.isCompiled (node.formula?.getD "<malformed>") node.value) := by
  constructor
  · simp only [Session.step, Session.inspect, found]
  · simp only [Session.step, Session.inspect, found, Except.mapError]
  · rw [← ExpressionNode.summary_eq]
    simp only [Session.step, Session.inspect, found]
    rfl

theorem Session.shows_of_root {root : Node} (read : node.root = .ok root) :
    session.Shows name (.ok root.references) (some root.formula)
      (summaryLine node.isCompiled root.formula node.value) := by
  have shows := Session.shows_node found
  rwa [ExpressionNode.references, ExpressionNode.formula?, read] at shows

theorem Session.shows_of_fault {fault : MalformedGraph} (unread : node.root = .error fault) :
    session.Shows name (.error fault) none
      (summaryLine node.isCompiled "<malformed>" node.value) := by
  have shows := Session.shows_node found
  rwa [ExpressionNode.references, ExpressionNode.formula?, unread] at shows

end Shows

/-- A source has no tree if it is a graph as it was received and the reader rejects it. -/
theorem Source.exists_fault_iff {source : Source} :
    (∃ fault, source.root = .error fault) ↔
      ∃ graph fault, source = .wire graph ∧ Node.read graph Path.graph = .error fault := by
  cases source <;> simp [Source.root]

section Uncompiled

variable {session : Session} {name : String} {id : NodeId} {linked : Bool}
  {node : ExpressionNode NodeId} {source : Source}
  (found : session.find? name = some (id, .expression linked node))
  (held : node.lifecycle = .uncompiled source)

include found held

theorem Session.shows_uncompiled :
    (∀ fault, source.root = .error fault →
      session.Shows name (.error fault) none (summaryLine false "<malformed>" node.value)) ∧
    ∀ root, source.root = .ok root →
      session.Shows name (.ok root.references) (some root.formula)
        (summaryLine false root.formula node.value) := by
  rw [← ExpressionNode.root_of_uncompiled held, ← ExpressionNode.isCompiled_of_uncompiled held]
  exact ⟨fun _ => Session.shows_of_fault found, fun _ => Session.shows_of_root found⟩

/-- Both views tell whether there is a tree. -/
theorem Session.tells_uncompiled :
    ((session.step (.formula name)).outcome = .ok (.text none) ↔
      ∃ fault, source.root = .error fault) ∧
    ((session.step (.summary name)).outcome =
        .ok (.text (some (summaryLine false "<malformed>" node.value))) ↔
      ∃ fault, source.root = .error fault) := by
  have shows := Session.shows_node found
  rw [shows.formula, shows.summary, ExpressionNode.isCompiled_of_uncompiled held,
    ← ExpressionNode.root_of_uncompiled held]
  simp only [Except.ok.injEq, Answer.text.injEq, Option.some.injEq]
  refine ⟨ExpressionNode.formula?_eq_none_iff, ?_⟩
  rw [← ExpressionNode.getD_formula?_iff]
  exact ⟨summaryLine_inj, fun word => by rw [word]⟩

end Uncompiled

/-- What a node shows in a run is settled by its graph. If it is compiled at any time of the run, it
shows the references and the formula of the tree that was compiled at every time, earlier or later, and
the references of the compiled expression are the same as a set. As long as it is not compiled, it has
no formula exactly if its graph was received and is rejected by the reader, and then it shows the fault
in place of references and a word in place of the formula; no formula is empty or is that word, and a
graph that was refused for its unsupported nodes alone has one. Looking changes nothing, consults nothing
and reports nothing. -/
theorem SessionReach.views_settled {history : List Moment} {session : Session}
    (reach : SessionReach history session) {name : String} {id : NodeId} {linked : Bool}
    {node : ExpressionNode NodeId} (found : session.find? name = some (id, .expression linked node)) :
    (∀ later last, SessionReach (later ++ history) last →
      ∀ moment ∈ later ++ history, ∀ expression, moment.compiled? id = some expression →
        session.Shows name (.ok expression.root.references) (some expression.root.formula)
          (summaryLine node.isCompiled expression.root.formula node.value) ∧
        expression.references.Pairwise (· < ·) ∧
        ∀ tag, tag ∈ expression.references ↔ tag ∈ expression.root.references) ∧
    (∀ source, node.lifecycle = .uncompiled source →
      (∀ graph fault, source = .wire graph → Node.read graph Path.graph = .error fault →
        session.Shows name (.error fault) none (summaryLine false "<malformed>" node.value)) ∧
      (∀ root, source.root = .ok root →
        session.Shows name (.ok root.references) (some root.formula)
          (summaryLine false root.formula node.value)) ∧
      ((session.step (.formula name)).outcome = .ok (.text none) ↔
        ∃ graph fault, source = .wire graph ∧ Node.read graph Path.graph = .error fault) ∧
      ((session.step (.summary name)).outcome =
          .ok (.text (some (summaryLine false "<malformed>" node.value))) ↔
        ∃ graph fault, source = .wire graph ∧ Node.read graph Path.graph = .error fault) ∧
      ∀ error, (compile node.config (session.world linked) source).outcome =
        .error (.unsupported error) → ∃ root, source.root = .ok root) ∧
    ∀ root : Node, root.formula ≠ "" ∧ root.formula ≠ "<malformed>" := by
  have present := Session.nodes_of_find? found
  refine ⟨?_, ?_, fun root => ⟨root.formula_ne_empty, root.formula_ne_malformed⟩⟩
  · intro later last further moment member expression made
    have root := reach.root_of_compiled further present member made
    exact ⟨Session.shows_of_root found root, pairwise_ascending _, fun tag => mem_ascending⟩
  · intro source held
    obtain ⟨faulty, sound⟩ := Session.shows_uncompiled found held
    rw [← Source.exists_fault_iff]
    refine ⟨?_, sound, (Session.tells_uncompiled found held).1,
      (Session.tells_uncompiled found held).2, ?_⟩
    · rintro graph fault rfl unread
      exact faulty fault unread
    · intro error refused
      cases read : source.root with
      | ok root => exact ⟨root, rfl⟩
      | error fault =>
        rw [compile_of_fault read] at refused
        cases refused

/-- One node is compiled later in the run; a strict one is refused for a tag, and another for its shape. -/
theorem SessionReach.views_settled_strict_refusal :
    let sqrt (operand : Json) : Json := .obj [("type", .str "sqrt"), ("v", operand)]
    let late := sqrt (.obj [("type", .str "value"), ("tag", .int 1)])
    let refused := sqrt (.obj [("type", .str "set")])
    let bad := sqrt .null
    let node (graph : Json) : SessionNode :=
      .expression true (ExpressionNode.create ⟨.compile, true⟩ (.wire graph))
    let session : Session := ⟨[node late, node refused, node bad],
      [("bad", 2), ("refused", 1), ("late", 0)], Registry.empty⟩
    (∃ history, SessionReach history session) ∧
      session.Shows "late" (.ok [1]) (some "sqrt(value#1)") (summaryLine false "sqrt(value#1)" 0) ∧
      session.Shows "refused" (.ok []) (some "sqrt(set?)") (summaryLine false "sqrt(set?)" 0) ∧
      session.Shows "bad" (.error ⟨Path.graph.field .v, .notObject .null⟩) none
        (summaryLine false "<malformed>" 0) ∧
      ∀ answer, (session.step (.update "refused")).outcome ≠ .ok answer := by
  intro sqrt late refused bad node session
  have reach : SessionReach _ session := SessionReach.start
    |>.next (.newExpression "late" late ⟨.compile, true⟩ true false)
    |>.next (.newExpression "refused" refused ⟨.compile, true⟩ true false)
    |>.next (.newExpression "bad" bad ⟨.compile, true⟩ true false)
  let expression : Compiled NodeId := ⟨.unary .sqrt (.reference 1), .unary .sqrt (.constant 0)⟩
  have made : (Moment.mk session (.update "late")).compiled? 0 = some expression := rfl
  obtain ⟨compiled, _⟩ := @SessionReach.views_settled _ _ reach "late" 0 true _ rfl
  obtain ⟨shows, _⟩ := compiled [⟨session, .update "late"⟩] _ (.next (.update "late") reach) _
    (List.mem_cons_self ..) expression made
  obtain ⟨_, views, _⟩ := @SessionReach.views_settled _ _ reach "refused" 1 true _ rfl
  obtain ⟨_, accepted, _⟩ := views (.wire refused) rfl
  obtain ⟨_, others, _⟩ := @SessionReach.views_settled _ _ reach "bad" 2 true _ rfl
  obtain ⟨rejected, _⟩ := others (.wire bad) rfl
  refine ⟨⟨_, reach⟩, shows, accepted _ rfl, rejected bad _ rfl rfl, ?_⟩
  intro answer impossible
  cases impossible

end TickGraph
