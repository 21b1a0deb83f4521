import TickGraph.Proofs.CanonicalForm
import TickGraph.Proofs.Construction
import TickGraph.Proofs.Places

namespace TickGraph

/-- The operands of a builder, each behind the steps that lead to its graph. -/
def Builder.placed {α : Type} : Builder → List α → List (List Step × α)
  | .variadic _, a :: b :: others =>
    ([.field .a], a) :: ([.field .b], b) ::
      others.zipIdx.map fun entry => ([.other entry.2], entry.1)
  | .unary _, [v] => [([.field .v], v)]
  | .comparison _, [left, right] => [([.field .left], left), ([.field .right], right)]
  | .conditional, expr :: ifNode :: rest =>
    ([.field .expr], expr) :: ([.field .ifNode], ifNode) ::
      rest.map fun elseNode => ([.field .elseNode], elseNode)
  | _, operands => operands.map fun operand => ([], operand)

/-- The tree that a builder makes of the trees of its operands. -/
def Builder.assemble : Builder → List Node → Node
  | .variadic op, a :: b :: others => .variadic op a b others
  | .unary op, [v] => .unary op v
  | .comparison op, [left, right] => .comparison op left right
  | .conditional, expr :: ifNode :: rest => .conditional expr ifNode (rest.headD (.number 0))
  | _, roots => roots.headD default

/-- The tree that an operand stands for. A mapping stands for what is read from it. -/
def Operand.tree? : Operand → Option Node
  | .plain (.obj fields) => (Node.read (.obj fields) .graph).toOption
  | .plain (.int n) => (Number.int n).toDouble.toOption.map Node.number
  | .plain (.float x) => some (.number x)
  | .node root => some root
  | .carrier _ (some (.int tag)) => some (.reference tag)
  | _ => none

/-- The tree that an operand of a builder stands for. -/
def Builder.operandTree? : Builder → Operand → Option Node
  | .literal, operand => operand.double.toOption.map Node.number
  | .reference, operand => operand.integer.toOption.map Node.reference
  | _, operand => operand.tree?

mutual

/-- The tree that an argument of a builder stands for. -/
def Construction.tree? (builder : Builder) : Construction → Option Node
  | .given operand => builder.operandTree? operand
  | .call inner arguments => (Construction.trees? inner arguments).map inner.assemble

def Construction.trees? (builder : Builder) : List Construction → Option (List Node)
  | [] => pure []
  | argument :: rest => do
    let root ← argument.tree? builder
    pure (root :: (← Construction.trees? builder rest))

end

mutual

/-- The mappings among the operands of a nested call from left to right, each behind the steps that
lead to it. -/
def Construction.mappings : Construction → List (List Step × Json)
  | .given (.plain (.obj fields)) => [([], .obj fields)]
  | .given _ => []
  | .call builder arguments =>
    (builder.placed (Construction.allMappings arguments)).flatMap fun entry =>
      entry.2.map fun mapping => (entry.1 ++ mapping.1, mapping.2)

def Construction.allMappings : List Construction → List (List (List Step × Json))
  | [] => []
  | argument :: rest => argument.mappings :: Construction.allMappings rest

end

/-- A mapping with a type, whatever that is. -/
def Json.Typed (d : Json) : Prop :=
  ∃ fields type, d = .obj fields ∧ fields.lookup Json.typeKey = some type

/-- A mapping that is a graph. Where it stands is of no account. -/
def Json.Readable (d : Json) : Prop :=
  ∃ root, ∀ path, Node.read d path = .ok root

/-- Reading something that is made of mappings. Either all of them can be read and it gives the tree, or
it reports the first one that cannot, behind the steps that lead to it. -/
inductive Reading {α : Type} (mappings : List (List Step × Json)) (tree? : Option α)
    (run : Path → Except MalformedGraph α) : Prop
  | accepted (x : α) (clean : ∀ mapping ∈ mappings, mapping.2.Readable) (tree : tree? = some x)
      (result : ∀ path, run path = .ok x)
  | refused (front back : List (List Step × Json)) (steps : List Step) (d : Json) (fault : Fault)
      (split : mappings = front ++ (steps, d) :: back)
      (clean : ∀ mapping ∈ front, mapping.2.Readable)
      (malformed : ∀ path, Node.read d path = .error (fault.under path))
      (result : ∀ path, run path = .error (fault.under (path.along steps)))

theorem Construction.trees?_eq_mapM (builder : Builder) (arguments : List Construction) :
    Construction.trees? builder arguments = arguments.mapM (Construction.tree? builder) := by
  induction arguments with
  | nil => rfl
  | cons argument rest ih => rw [Construction.trees?, ih, List.mapM_cons]

theorem Construction.allMappings_eq_map (arguments : List Construction) :
    Construction.allMappings arguments = arguments.map Construction.mappings := by
  induction arguments with
  | nil => rfl
  | cons argument rest ih => rw [Construction.allMappings, ih, List.map_cons]

section Placed

variable {α β : Type} {builder : Builder} {xs : List α}

theorem Builder.placed_map (f : α → β) (fits : builder.Fits xs) :
    builder.placed (xs.map f) = (builder.placed xs).map fun entry => (entry.1, f entry.2) := by
  cases fits <;> simp [Builder.placed, List.zipIdx_map]

theorem Builder.placed_snd (fits : builder.Fits xs) : (builder.placed xs).map Prod.snd = xs := by
  cases fits <;> simp [Builder.placed, List.map_map, Function.comp_def]

end Placed

theorem Reader.items_eq_mapM (items : List Json) (i : Nat) (path : Path) :
    Reader.plain.items items i path =
      (items.zipIdx i).mapM fun entry => Node.read entry.1 (path.other entry.2) := by
  induction items generalizing i with
  | nil => rfl
  | cons d rest ih => rw [Reader.items, ih, List.zipIdx_cons, List.mapM_cons, Reader.plain_node]

theorem Json.writes_literalGraph (x : Float) : (literalGraph x).Writes (.number x) :=
  .number rfl rfl rfl

theorem Json.writes_referenceGraph (tag : Int) : (referenceGraph tag).Writes (.reference tag) :=
  .reference rfl rfl rfl

theorem Reader.child_of_held {fields : Json.Fields} {field : Field} {d : Json}
    (held : fields.lookup field.key = some d) (path : Path) :
    Reader.plain.child field fields path = Node.read d (path.along [.field field]) := by
  rw [Reader.child_eq, held, Path.along_cons, Path.along_nil]
  rfl

theorem Node.read_conditional (expr ifNode elseNode : Json) (path : Path) :
    Node.read (.obj [(Json.typeKey, .str Operator.conditional.tag), (Field.expr.key, expr),
        (Field.ifNode.key, ifNode), (Field.elseNode.key, elseNode)]) path = (do
      let expr ← Node.read expr (path.along [.field .expr])
      let ifNode ← Node.read ifNode (path.along [.field .ifNode])
      let elseNode ← Node.read elseNode (path.along [.field .elseNode])
      pure (.conditional expr ifNode elseNode)) := by
  let fields : Json.Fields := [(Json.typeKey, .str Operator.conditional.tag), (Field.expr.key, expr),
    (Field.ifNode.key, ifNode), (Field.elseNode.key, elseNode)]
  have type : fields.lookup Json.typeKey = some (.str Operator.conditional.tag) := rfl
  have heldExpr : fields.lookup Field.expr.key = some expr := rfl
  have heldIf : fields.lookup Field.ifNode.key = some ifNode := rfl
  have heldElse : fields.lookup Field.elseNode.key = some elseNode := rfl
  change Node.read (.obj fields) path = _
  simp only [Node.read_typed type, Reader.operator, Reader.child_of_held heldExpr,
    Reader.child_of_held heldIf, Reader.child_of_held heldElse]

/-- The graph of a call is read operand by operand. -/
theorem Node.read_graphOver {builder : Builder} {graphs : List Json} (fits : builder.Fits graphs)
    (path : Path) :
    Node.read (builder.graphOver graphs) path =
      builder.assemble <$> (builder.placed graphs).mapM fun entry =>
        Node.read entry.2 (path.along entry.1) := by
  cases fits with
  | variadic op a b others =>
    let fields : Json.Fields := [(Json.typeKey, .str op.tag), (Field.a.key, a), (Field.b.key, b),
      (Field.others.key, .arr others)]
    have type : fields.lookup Json.typeKey = some (.str (Operator.variadic op).tag) := rfl
    have heldA : fields.lookup Field.a.key = some a := rfl
    have heldB : fields.lookup Field.b.key = some b := rfl
    have list : fields.lookup Field.others.key = some (.arr others) := rfl
    change Node.read (.obj fields) path = _
    simp only [Node.read_typed type, Reader.operator, Reader.child_of_held heldA,
      Reader.child_of_held heldB, Reader.others_eq, list, Reader.items_eq_mapM]
    simp only [Builder.placed, List.mapM_cons, List.mapM_map, map_bind, bind_pure_comp,
      Functor.map_map, Function.comp_def, Path.along_cons, Path.along_nil]
    rfl
  | unary op v =>
    let fields : Json.Fields := [(Json.typeKey, .str op.tag), (Field.v.key, v)]
    have type : fields.lookup Json.typeKey = some (.str (Operator.unary op).tag) := rfl
    have held : fields.lookup Field.v.key = some v := rfl
    change Node.read (.obj fields) path = _
    simp only [Node.read_typed type, Reader.operator, Reader.child_of_held held]
    simp [Builder.placed, Builder.assemble]
  | comparison op left right =>
    let fields : Json.Fields :=
      [(Json.typeKey, .str op.tag), (Field.left.key, left), (Field.right.key, right)]
    have type : fields.lookup Json.typeKey = some (.str (Operator.comparison op).tag) := rfl
    have heldLeft : fields.lookup Field.left.key = some left := rfl
    have heldRight : fields.lookup Field.right.key = some right := rfl
    change Node.read (.obj fields) path = _
    simp only [Node.read_typed type, Reader.operator, Reader.child_of_held heldLeft,
      Reader.child_of_held heldRight]
    simp [Builder.placed, Builder.assemble]
  | withoutElse expr ifNode =>
    rw [Builder.graphOver, Node.read_conditional, List.headD_nil,
      (Json.writes_literalGraph 0).read]
    simp [Builder.placed, Builder.assemble]
    rfl
  | conditional expr ifNode elseNode =>
    rw [Builder.graphOver, Node.read_conditional, List.headD_cons]
    simp [Builder.placed, Builder.assemble]
  | _ => simp [Builder.graphOver, Builder.placed, Builder.assemble, Path.along_nil]

theorem Path.along_append (path : Path) (steps further : List Step) :
    path.along (steps ++ further) = (path.along steps).along further := by
  simp [Path.along]

namespace Reading

variable {α β : Type} {mappings others : List (List Step × Json)} {tree? : Option α}
  {run : Path → Except MalformedGraph α}

theorem map (reading : Reading mappings tree? run) (f : α → β) :
    Reading mappings (tree?.map f) fun path => f <$> run path := by
  cases reading with
  | accepted x clean tree result =>
    refine .accepted (f x) clean (by rw [tree, Option.map_some]) fun path => ?_
    rw [result path]
    rfl
  | refused front back steps d fault split clean malformed result =>
    refine .refused front back steps d fault split clean malformed fun path => ?_
    rw [result path]
    rfl

/-- The same reading further down. -/
theorem below (reading : Reading mappings tree? run) (place : List Step) :
    Reading (mappings.map fun mapping => (place ++ mapping.1, mapping.2)) tree?
      fun path => run (path.along place) := by
  cases reading with
  | accepted x clean tree result =>
    refine .accepted x ?_ tree fun path => result _
    exact List.forall_mem_map.mpr clean
  | refused front back steps d fault split clean malformed result =>
    refine .refused (front.map fun mapping => (place ++ mapping.1, mapping.2))
      (back.map fun mapping => (place ++ mapping.1, mapping.2)) (place ++ steps) d fault ?_ ?_
      malformed fun path => ?_
    · rw [split, List.map_append, List.map_cons]
    · exact List.forall_mem_map.mpr clean
    · rw [result, Path.along_append]

/-- One thing is read after the other, and the second one only if the first one is accepted. -/
theorem cons {trees? : Option (List α)} {runs : Path → Except MalformedGraph (List α)}
    (reading : Reading mappings tree? run) (rest : Reading others trees? runs) :
    Reading (mappings ++ others) (tree? >>= fun x => trees? >>= fun xs => pure (x :: xs))
      fun path => run path >>= fun x => runs path >>= fun xs => pure (x :: xs) := by
  cases reading with
  | refused front back steps d fault split clean malformed result =>
    refine .refused front (back ++ others) steps d fault ?_ clean malformed fun path => ?_
    · rw [split, List.append_assoc, List.cons_append]
    · rw [result path]
      rfl
  | accepted x clean tree result =>
    cases rest with
    | accepted xs others trees results =>
      refine .accepted (x :: xs) (List.forall_mem_append.mpr ⟨clean, others⟩) ?_ fun path => ?_
      · rw [tree, trees]
        rfl
      · rw [result path, results path]
        rfl
    | refused front back steps d fault split before malformed results =>
      refine .refused (mappings ++ front) back steps d fault ?_ ?_ malformed fun path => ?_
      · rw [split, List.append_assoc]
      · exact List.forall_mem_append.mpr ⟨clean, before⟩
      · rw [result path, results path]
        rfl

/-- Several things at their places, read one after the other. -/
theorem mapM (mappings : β → List (List Step × Json)) (tree? : β → Option α)
    (run : β → Path → Except MalformedGraph α) {entries : List (List Step × β)}
    (each : ∀ entry ∈ entries, Reading (mappings entry.2) (tree? entry.2) (run entry.2)) :
    Reading (entries.flatMap fun entry =>
        (mappings entry.2).map fun mapping => (entry.1 ++ mapping.1, mapping.2))
      (entries.mapM fun entry => tree? entry.2)
      fun path => entries.mapM fun entry => run entry.2 (path.along entry.1) := by
  induction entries with
  | nil => exact .accepted [] (List.forall_mem_nil _) rfl fun _ => rfl
  | cons entry rest ih =>
    obtain ⟨first, others⟩ := List.forall_mem_cons.mp each
    simp only [List.mapM_cons, List.flatMap_cons]
    exact (first.below entry.1).cons (ih others)

end Reading

/-- A mapping stands for what is read from it. -/
theorem Json.reading_mapping (d : Json) :
    Reading [([], d)] (Node.read d .graph).toOption (Node.read d) := by
  cases Node.read_reports d with
  | accepted root result clean =>
    refine .accepted root ?_ (by rw [result]; rfl) result
    exact List.forall_mem_singleton.mpr ⟨root, result⟩
  | refused fault result found first =>
    refine .refused [] [] [] d fault rfl (List.forall_mem_nil _) result fun path => ?_
    rw [result path, path.along_nil]

theorem Json.Writes.typed {d : Json} {root : Node} (writes : d.Writes root) : d.Typed := by
  cases writes <;> exact ⟨_, _, rfl, by assumption⟩

theorem Json.Typed.toGraph {d : Json} (typed : d.Typed) : (Operand.plain d).toGraph = .ok d := by
  obtain ⟨fields, type, rfl, held⟩ := typed
  rw [Operand.toGraph, held]
  rfl

theorem numberGraph_eq_ok {number : Number} {graph : Json} (made : numberGraph number = .ok graph) :
    ∃ x, number.toDouble = .ok x ∧ graph = literalGraph x := by
  unfold numberGraph at made
  cases double : number.toDouble with
  | error range =>
    rw [double] at made
    cases made
  | ok x =>
    rw [double] at made
    exact ⟨x, rfl, (Except.ok.inj made).symm⟩

/-- A graph that is built over mappings, and the tree that it stands for if all of them can be read. -/
structure Encoding (mappings : List (List Step × Json)) (tree? : Option Node) (graph : Json) :
    Prop where
  typed : graph.Typed
  reading : Reading mappings tree? (Node.read graph)

section Operands

variable {operand : Operand} {graph : Json}

theorem Encoding.leaf {mappings : List (List Step × Json)} {tree? : Option Node} {root : Node}
    (empty : mappings = []) (tree : tree? = some root) (writes : graph.Writes root) :
    Encoding mappings tree? graph := by
  subst empty
  exact ⟨writes.typed, .accepted root (List.forall_mem_nil _) tree writes.read⟩

theorem Operand.encoding_of_literal (converted : Builder.literal.convert operand = .ok graph) :
    Encoding (Construction.given operand).mappings (Builder.literal.operandTree? operand) graph := by
  rw [Builder.convert] at converted
  cases held : operand.double with
  | error failure =>
    rw [held] at converted
    cases converted
  | ok x =>
    rw [held] at converted
    cases converted
    have empty : (Construction.given operand).mappings = [] := by
      cases Operand.double_eq_ok_iff.mp held <;> rfl
    exact .leaf empty (by rw [Builder.operandTree?, held]; rfl) (Json.writes_literalGraph x)

theorem Operand.encoding_of_reference (converted : Builder.reference.convert operand = .ok graph) :
    Encoding (Construction.given operand).mappings (Builder.reference.operandTree? operand) graph := by
  rw [Builder.convert] at converted
  cases held : operand.integer with
  | error failure =>
    rw [held] at converted
    cases converted
  | ok tag =>
    rw [held] at converted
    cases converted
    have empty : (Construction.given operand).mappings = [] := by
      cases Operand.integer_eq_ok_iff.mp held <;> rfl
    exact .leaf empty (by rw [Builder.operandTree?, held]; rfl) (Json.writes_referenceGraph tag)

theorem Operand.encoding_of_toGraph
    (read : ∀ root, operand = .node root → ∃ d path, Node.read d path = .ok root)
    (converted : operand.toGraph = .ok graph) :
    Encoding (Construction.given operand).mappings operand.tree? graph := by
  cases Operand.exists_toGraph_iff.mp ⟨graph, converted⟩ with
  | int fits =>
    rw [Operand.toGraph] at converted
    obtain ⟨x, double, rfl⟩ := numberGraph_eq_ok converted
    exact .leaf rfl (by rw [Operand.tree?, double]; rfl) (Json.writes_literalGraph x)
  | float x =>
    cases converted
    exact .leaf rfl rfl (Json.writes_literalGraph x)
  | @mapping fields d type =>
    rw [Operand.toGraph, type] at converted
    cases converted
    exact ⟨⟨fields, d, rfl, type⟩, Json.reading_mapping _⟩
  | node root =>
    obtain ⟨d, path, success⟩ := read root rfl
    cases converted
    exact .leaf rfl rfl (Node.read_eq_ok_iff.mp success).again
  | tagged name tag =>
    cases converted
    exact .leaf rfl rfl (Json.writes_referenceGraph tag)

/-- A graph is converted to itself or not at all. -/
theorem Builder.convert_of_typed {builder : Builder} {d : Json} (typed : d.Typed)
    (converted : builder.convert (.plain d) = .ok graph) : graph = d := by
  cases builder with
  | literal =>
    obtain ⟨fields, type, rfl, held⟩ := typed
    cases converted
  | reference =>
    obtain ⟨fields, type, rfl, held⟩ := typed
    cases converted
  | _ => exact Except.ok.inj (converted.symm.trans typed.toGraph)

end Operands

theorem Builder.typed_graphOver {builder : Builder} {graphs : List Json} (fits : builder.Fits graphs)
    (each : ∀ graph ∈ graphs, graph.Typed) : (builder.graphOver graphs).Typed := by
  cases fits with
  | literal x => exact each x (List.mem_singleton_self x)
  | reference x => exact each x (List.mem_singleton_self x)
  | graph x => exact each x (List.mem_singleton_self x)
  | _ => exact ⟨_, _, rfl, rfl⟩

namespace Construction

variable {builder : Builder} {arguments : List Construction}

/-- The graph of a call is read as its arguments say. -/
theorem encoding_of_call {operand : Operand} (takes : builder.takes arguments.length = true)
    (each : ∀ argument ∈ arguments, ∀ graph, argument.built >>= builder.convert = .ok graph →
      Encoding argument.mappings (argument.tree? builder) graph)
    (built : (Construction.call builder arguments).built = .ok operand) :
    ∃ graph, operand = .plain graph ∧ Encoding (Construction.call builder arguments).mappings
      ((arguments.mapM (Construction.tree? builder)).map builder.assemble) graph := by
  obtain ⟨pairs, rfl, rfl, made⟩ := pairs_of_built_call takes built
  have fits : builder.Fits pairs := Builder.fits_of_takes (by simpa using takes)
  have graphs : builder.Fits (pairs.map Prod.snd) := Builder.fits_of_takes (by simpa using takes)
  have known : ∀ pair ∈ pairs, Encoding pair.1.mappings (pair.1.tree? builder) pair.2 :=
    fun pair member => each _ (List.mem_map_of_mem member) _ (made pair member)
  have reading : ∀ entry ∈ builder.placed pairs,
      Reading entry.2.1.mappings (entry.2.1.tree? builder) (Node.read entry.2.2) := by
    intro entry member
    refine (known entry.2 ?_).reading
    rw [← Builder.placed_snd fits]
    exact List.mem_map_of_mem member
  have mappings : (Construction.call builder (pairs.map Prod.fst)).mappings =
      (builder.placed pairs).flatMap fun entry =>
        entry.2.1.mappings.map fun mapping => (entry.1 ++ mapping.1, mapping.2) := by
    rw [Construction.mappings, allMappings_eq_map, List.map_map, Builder.placed_map _ fits,
      List.flatMap_map]
    rfl
  have trees : (pairs.map Prod.fst).mapM (Construction.tree? builder) =
      (builder.placed pairs).mapM fun entry => entry.2.1.tree? builder := by
    rw [List.mapM_map]
    nth_rewrite 1 [← Builder.placed_snd fits]
    rw [List.mapM_map]
    rfl
  have read : Node.read (builder.graphOver (pairs.map Prod.snd)) = fun path =>
      builder.assemble <$> (builder.placed pairs).mapM fun entry =>
        Node.read entry.2.2 (path.along entry.1) := by
    funext path
    rw [Node.read_graphOver graphs, Builder.placed_map _ fits, List.mapM_map]
    rfl
  refine ⟨_, rfl, Builder.typed_graphOver graphs ?_, ?_⟩
  · exact List.forall_mem_map.mpr fun pair member => (known pair member).typed
  · rw [mappings, trees, read]
    exact (Reading.mapM (fun pair : Construction × Json => pair.1.mappings)
      (fun pair => pair.1.tree? builder) (fun pair => Node.read pair.2) reading).map
        builder.assemble

/-- What an argument stands for is read from the graph that it is converted to. -/
theorem Proper.encoding {construction : Construction} (proper : construction.Proper) {graph : Json}
    (converted : construction.built >>= builder.convert = .ok graph) :
    Encoding construction.mappings (construction.tree? builder) graph := by
  induction proper generalizing builder graph with
  | given read =>
    cases builder with
    | literal => exact Operand.encoding_of_literal converted
    | reference => exact Operand.encoding_of_reference converted
    | _ => exact Operand.encoding_of_toGraph read converted
  | call takes each ih =>
    obtain ⟨operand, built, converted⟩ := Except.bind_eq_ok_iff.mp converted
    obtain ⟨inner, rfl, encoding⟩ :=
      encoding_of_call takes (fun argument member graph => ih argument member) built
    rw [Builder.convert_of_typed encoding.typed converted, Construction.tree?, trees?_eq_mapM]
    exact encoding

/-- Builders and the reading of graphs agree. A nested call fails with the first operand that cannot be
converted. If there is none it builds a graph, and from this the operator is read that was called, over
what the operands stand for, unless a mapping among them is no graph. Then the first such mapping is
reported, with the steps in front that lead to it. -/
theorem read_built (proper : (Construction.call builder arguments).Proper) :
    let call := Construction.call builder arguments
    (∀ operand : Operand,
      ((∃ graph, operand.toGraph = .ok graph) ↔ operand.Convertible) ∧
      (∀ x, operand.double = .ok x ↔ operand.WritesDouble x) ∧
      ∀ tag, operand.integer = .ok tag ↔ operand.WritesInteger tag) ∧
    (∀ failure, call.built = .error failure ↔
      call.conversions.findSome? BuildFailure.of? = some failure) ∧
    ((∀ conversion ∈ call.conversions, ∃ graph, conversion = .ok graph) →
      ∃ graph, call.built = .ok (.plain graph) ∧ (Operand.plain graph).Convertible ∧
        (∀ path, (∃ root, Node.read graph path = .ok root) ↔
          ∀ mapping ∈ call.mappings, mapping.2.Readable) ∧
        (∀ path root, Node.read graph path = .ok root →
          ∃ roots, arguments.mapM (Construction.tree? builder) = some roots ∧
            root = builder.assemble roots) ∧
        ((∃ mapping ∈ call.mappings, ¬ mapping.2.Readable) →
          ∃ front steps d back, ∃ fault : Fault, call.mappings = front ++ (steps, d) :: back ∧
            (∀ mapping ∈ front, mapping.2.Readable) ∧
            (∀ path, Node.read d path = .error (fault.under path)) ∧
            ∀ path, Node.read graph path = .error (fault.under (path.along steps)))) := by
  intro call
  have failures : call.conversions.findSome? BuildFailure.of? = BuildFailure.of? call.built :=
    proper.firstFailure
  refine ⟨fun operand => ⟨Operand.exists_toGraph_iff, fun _ => Operand.double_eq_ok_iff,
    fun _ => Operand.integer_eq_ok_iff⟩, fun failure => ?_, fun converts => ?_⟩
  · rw [failures, BuildFailure.of?_eq_some_iff]
  have clean : call.conversions.findSome? BuildFailure.of? = none := by
    refine List.findSome?_eq_none_iff.mpr fun conversion member => ?_
    exact BuildFailure.of?_eq_none_iff.mpr (converts conversion member)
  obtain ⟨operand, built⟩ := BuildFailure.of?_eq_none_iff.mp (failures.symm.trans clean)
  cases proper with
  | call takes each =>
    obtain ⟨graph, rfl, typed, reading⟩ :=
      encoding_of_call takes (fun argument member graph => (each argument member).encoding) built
    refine ⟨graph, built, Operand.exists_toGraph_iff.mp ⟨graph, typed.toGraph⟩, ?_⟩
    cases reading with
    | accepted root clean tree result =>
      refine ⟨fun path => ⟨fun _ => clean, fun _ => ⟨root, result path⟩⟩, ?_, ?_⟩
      · intro path other success
        cases (result path).symm.trans success
        obtain ⟨roots, trees, same⟩ := Option.map_eq_some_iff.mp tree
        exact ⟨roots, trees, same.symm⟩
      · rintro ⟨mapping, member, unreadable⟩
        exact absurd (clean mapping member) unreadable
    | refused front back steps d fault split clean malformed result =>
      have refuses (path : Path) (root : Node) : Node.read graph path ≠ .ok root := by
        rw [result path]
        exact fun same => by cases same
      have unreadable : ¬ d.Readable := by
        rintro ⟨root, read⟩
        cases (read .graph).symm.trans (malformed .graph)
      refine ⟨fun path => ⟨?_, fun all => ?_⟩, ?_, fun _ => ?_⟩
      · rintro ⟨root, success⟩
        exact absurd success (refuses path root)
      · refine absurd (all (steps, d) ?_) unreadable
        rw [split]
        exact List.mem_append_right _ (List.mem_cons_self ..)
      · exact fun path root success => absurd success (refuses path root)
      · exact ⟨front, steps, d, back, fault, split, clean, malformed, result⟩

/-- A mapping without its operand is taken into a graph. It is reported where it stands, below the other
branch of a condition that is itself a further operand. -/
theorem read_built_incomplete_mapping :
    let good : Json := .obj [("type", .str "value"), ("tag", .int 3)]
    let bad : Json := .obj [("type", .str "sin")]
    let equation : Construction :=
      .call (.comparison .eq) [.given (.node (.reference 1)), .given (.plain good)]
    let arguments : List Construction := [.given (.plain (.float 2)),
      .given (.carrier "Tagged" (some (.int 7))),
      .call .conditional [equation, .given (.plain bad), .given (.plain (.float 0))]]
    let call : Construction := .call (.variadic .add) arguments
    call.Proper ∧
      call.mappings = [([.other 0, .field .expr, .field .right], good),
        ([.other 0, .field .ifNode], bad)] ∧
      ∃ graph, call.built = .ok (.plain graph) ∧
        Node.read graph ⟨"q", []⟩ =
          .error ⟨⟨"q", [.other 0, .field .ifNode]⟩, .missing .v⟩ := by
  intro good bad equation arguments call
  have plain (d : Json) : (Construction.given (.plain d)).Proper :=
    .given fun root same => by cases same
  have proper : call.Proper := by
    refine .call rfl (List.forall_mem_cons.mpr ⟨plain _, List.forall_mem_cons.mpr ⟨?_, ?_⟩⟩)
    · exact .given fun root same => by cases same
    refine List.forall_mem_singleton.mpr (.call rfl (List.forall_mem_cons.mpr ⟨?_, ?_⟩))
    · refine .call rfl (List.forall_mem_cons.mpr ⟨.given ?_, ?_⟩)
      · intro root same
        cases same
        exact ⟨referenceGraph 1, .graph, (Json.writes_referenceGraph 1).read .graph⟩
      · exact List.forall_mem_singleton.mpr (plain _)
    · exact List.forall_mem_cons.mpr ⟨plain _, List.forall_mem_singleton.mpr (plain _)⟩
  have mappings : call.mappings = [([.other 0, .field .expr, .field .right], good),
      ([.other 0, .field .ifNode], bad)] := rfl
  have converts : ∀ conversion ∈ call.conversions, ∃ graph, conversion = .ok graph := by
    let equationGraph := (Builder.comparison .eq).graphOver [referenceGraph 1, good]
    let branches := Builder.conditional.graphOver [equationGraph, bad, literalGraph 0]
    have conversions : call.conversions = [referenceGraph 1, good, equationGraph, bad,
        literalGraph 0, literalGraph 2, referenceGraph 7, branches].map .ok := rfl
    rw [conversions]
    exact List.forall_mem_map.mpr fun graph _ => ⟨graph, rfl⟩
  obtain ⟨_, _, made⟩ := read_built proper
  obtain ⟨graph, built, _, _, _, report⟩ := made converts
  have readable : good.Readable := ⟨.reference 3, fun path => rfl⟩
  have incomplete (path : Path) : Node.read bad path = .error ⟨path, .missing .v⟩ := rfl
  have unreadable : ¬ bad.Readable := by
    rintro ⟨root, read⟩
    cases (incomplete .graph).symm.trans (read .graph)
  obtain ⟨front, steps, d, back, fault, split, _, malformed, result⟩ :=
    report ⟨_, by rw [mappings]; exact List.mem_cons_of_mem _ (List.mem_singleton_self _),
      unreadable⟩
  refine ⟨proper, mappings, graph, built, ?_⟩
  rw [mappings] at split
  cases front with
  | nil =>
    cases split
    obtain ⟨root, read⟩ := readable
    cases (malformed .graph).symm.trans (read .graph)
  | cons first rest =>
    cases rest with
    | nil =>
      cases split
      exact (result _).trans ((malformed _).symm.trans (incomplete _))
    | cons second rest =>
      have length := congrArg List.length split
      simp at length

/-- A text will do where a number is asked for. -/
example : (call (.variadic .sub) [call .reference [.given (.plain (.str " 7"))],
      call .literal [.given (.plain (.str "2.5"))]]).built =
    .ok (.plain ((Builder.variadic .sub).graphOver [referenceGraph 7,
      literalGraph (Double.ofDecimal false 25 (-1))])) := by
  rfl
end Construction

end TickGraph
