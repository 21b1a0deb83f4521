import TickGraph.Builder
import TickGraph.Proofs.WrittenTree

namespace TickGraph

/-- An argument of a builder: an operand, or another call that gives one. -/
inductive Construction where
  | given (operand : Operand)
  | call (builder : Builder) (arguments : List Construction)

/-- Whether a builder is called with this many operands. -/
def Builder.takes : Builder → Nat → Bool
  | .variadic _, count => 2 ≤ count
  | .comparison _, count => count == 2
  | .conditional, count => count == 2 || count == 3
  | _, count => count == 1

/-- The lists of things for the operands of a builder. -/
inductive Builder.Fits {α : Type} : Builder → List α → Prop
  | variadic (op : VariadicOp) (a b : α) (others : List α) : Fits (.variadic op) (a :: b :: others)
  | unary (op : UnaryOp) (v : α) : Fits (.unary op) [v]
  | comparison (op : ComparisonOp) (left right : α) : Fits (.comparison op) [left, right]
  | withoutElse (expr ifNode : α) : Fits .conditional [expr, ifNode]
  | conditional (expr ifNode elseNode : α) : Fits .conditional [expr, ifNode, elseNode]
  | literal (x : α) : Fits .literal [x]
  | reference (x : α) : Fits .reference [x]
  | graph (x : α) : Fits .graph [x]

/-- The conversion of an operand. Literals and references are made from what is or writes a number. -/
def Builder.convert : Builder → Operand → Except BuildFailure Json
  | .literal, operand => literalGraph <$> operand.double
  | .reference, operand => referenceGraph <$> operand.integer
  | _, operand => operand.toGraph

/-- The graph over converted operands. -/
def Builder.graphOver : Builder → List Json → Json
  | .variadic op, a :: b :: others =>
    .obj [(Json.typeKey, .str op.tag), (Field.a.key, a), (Field.b.key, b),
      (Field.others.key, .arr others)]
  | .unary op, [v] => .obj [(Json.typeKey, .str op.tag), (Field.v.key, v)]
  | .comparison op, [left, right] =>
    .obj [(Json.typeKey, .str op.tag), (Field.left.key, left), (Field.right.key, right)]
  | .conditional, expr :: ifNode :: rest =>
    .obj [(Json.typeKey, .str Operator.conditional.tag), (Field.expr.key, expr),
      (Field.ifNode.key, ifNode), (Field.elseNode.key, rest.headD (literalGraph 0))]
  | _, graphs => graphs.headD .null

mutual

/-- The operand that an argument gives. -/
def Construction.built : Construction → Except BuildFailure Operand
  | .given operand => pure operand
  | .call builder arguments => do
    let operands ← Construction.builtAll arguments
    pure (.plain (← builder.build operands))

def Construction.builtAll : List Construction → Except BuildFailure (List Operand)
  | [] => pure []
  | argument :: rest => do
    let operand ← argument.built
    pure (operand :: (← Construction.builtAll rest))

end

mutual

/-- The conversions of a nested call, in the order in which they are made. -/
def Construction.conversions : Construction → List (Except BuildFailure Json)
  | .given _ => []
  | .call builder arguments =>
    Construction.allConversions arguments ++
      arguments.map fun argument => argument.built >>= builder.convert

def Construction.allConversions : List Construction → List (Except BuildFailure Json)
  | [] => []
  | argument :: rest => argument.conversions ++ Construction.allConversions rest

end

def BuildFailure.of? {α : Type} : Except BuildFailure α → Option BuildFailure
  | .error failure => some failure
  | .ok _ => none

/-- A nested call in which each builder gets a number of operands that it takes, and trees come from
reading a graph. -/
inductive Construction.Proper : Construction → Prop
  | given {operand : Operand}
      (read : ∀ root, operand = .node root → ∃ d path, Node.read d path = .ok root) :
      Proper (.given operand)
  | call {builder : Builder} {arguments : List Construction}
      (takes : builder.takes arguments.length = true)
      (each : ∀ argument ∈ arguments, argument.Proper) : Proper (.call builder arguments)

/-- The operands that a graph can be made of. -/
inductive Operand.Convertible : Operand → Prop
  | int {n : Int} (fits : n.natAbs < Number.doubleLimit) : Convertible (.plain (.int n))
  | float (x : Float) : Convertible (.plain (.float x))
  | mapping {fields : Json.Fields} {d : Json} (type : fields.lookup Json.typeKey = some d) :
      Convertible (.plain (.obj fields))
  | node (root : Node) : Convertible (.node root)
  | tagged (name : String) (tag : Int) : Convertible (.carrier name (some (.int tag)))

/-- The double that a literal is made of. A text has to write one. -/
inductive Operand.WritesDouble : Operand → Float → Prop
  | int {n : Int} (fits : n.natAbs < Number.doubleLimit) :
      WritesDouble (.plain (.int n)) (Float.ofInt n)
  | float (x : Float) : WritesDouble (.plain (.float x)) x
  | bool (b : Bool) : WritesDouble (.plain (.bool b)) (if b then 1 else 0)
  | text {text : Text} {x : Float} (written : Numeral.double? text.chars = some x) :
      WritesDouble (.plain (.str text)) x

/-- The tag that a reference is made of. -/
inductive Operand.WritesInteger : Operand → Int → Prop
  | int (n : Int) : WritesInteger (.plain (.int n)) n
  | float {x : Float} {q : ℚ} (value : Double.toRat? x = some q) :
      WritesInteger (.plain (.float x)) (Double.towardZero q)
  | bool (b : Bool) : WritesInteger (.plain (.bool b)) (if b then 1 else 0)
  | text {text : Text} {n : Int} (written : Numeral.int? text.chars = some n) :
      WritesInteger (.plain (.str text)) n

theorem Construction.builtAll_eq_mapM (arguments : List Construction) :
    Construction.builtAll arguments = arguments.mapM Construction.built := by
  induction arguments with
  | nil => rfl
  | cons argument rest ih => rw [Construction.builtAll, ih, List.mapM_cons]

theorem Construction.allConversions_eq_flatMap (arguments : List Construction) :
    Construction.allConversions arguments = arguments.flatMap Construction.conversions := by
  induction arguments with
  | nil => rfl
  | cons argument rest ih => rw [Construction.allConversions, ih, List.flatMap_cons]

theorem numberGraph_int (n : Int) :
    numberGraph (.int n) =
      if n.natAbs < Number.doubleLimit then .ok (literalGraph (Float.ofInt n))
      else .error .outOfRange := by
  unfold numberGraph Number.toDouble
  by_cases fits : n.natAbs < Number.doubleLimit
  · simp only [if_pos fits]
  · simp only [if_neg fits]

theorem numberGraph_zero : numberGraph (.int 0) = .ok (literalGraph 0) := by
  rw [numberGraph_int, if_pos (by decide +kernel)]
  rfl

theorem Operand.exists_toGraph_iff {operand : Operand} :
    (∃ graph, operand.toGraph = .ok graph) ↔ operand.Convertible := by
  constructor
  · rintro ⟨graph, converted⟩
    cases operand with
    | node root => exact .node root
    | carrier name tag =>
      cases tag with
      | none => cases converted
      | some d =>
        cases d with
        | int tag => exact .tagged name tag
        | _ => cases converted
    | plain d =>
      cases d with
      | int n =>
        rw [Operand.toGraph, numberGraph_int] at converted
        split at converted
        · rename_i fits
          exact .int fits
        · cases converted
      | float x => exact .float x
      | obj fields =>
        rw [Operand.toGraph] at converted
        split at converted
        · rename_i typed
          obtain ⟨d, type⟩ := Option.isSome_iff_exists.mp typed
          exact .mapping type
        · cases converted
      | _ => cases converted
  · intro convertible
    cases convertible with
    | int fits => exact ⟨_, by rw [Operand.toGraph, numberGraph_int, if_pos fits]⟩
    | @mapping fields d type => exact ⟨.obj fields, by rw [Operand.toGraph, type]; rfl⟩
    | _ => exact ⟨_, rfl⟩

theorem Operand.double_eq_ok_iff {operand : Operand} {x : Float} :
    operand.double = .ok x ↔ operand.WritesDouble x := by
  constructor
  · intro converted
    cases operand with
    | plain d =>
      cases d with
      | int n =>
        rw [Operand.double, Number.toDouble] at converted
        split at converted
        · rename_i fits
          cases converted
          exact .int fits
        · cases converted
      | float y =>
        cases converted
        exact .float x
      | bool b =>
        cases converted
        exact .bool b
      | str text =>
        rw [Operand.double] at converted
        cases written : Numeral.double? text.chars with
        | none =>
          rw [written] at converted
          cases converted
        | some y =>
          rw [written] at converted
          cases converted
          exact .text written
      | _ => cases converted
    | _ => cases converted
  · intro writes
    cases writes with
    | int fits => rw [Operand.double, Number.toDouble, if_pos fits]; rfl
    | text written => rw [Operand.double, written]
    | _ => rfl

theorem integerOfText_eq_ok_iff {text : Text} {n : Int} :
    integerOfText text = .ok n ↔ Numeral.int? text.chars = some n := by
  unfold integerOfText
  cases Numeral.int? text.chars with
  | some n => simp
  | none =>
    cases Numeral.integerDigits? text.chars with
    | none => simp
    | some digits =>
      by_cases long : Digits.maxIntegerDigits < digits <;> simp [long]

theorem Operand.integer_eq_ok_iff {operand : Operand} {n : Int} :
    operand.integer = .ok n ↔ operand.WritesInteger n := by
  constructor
  · intro converted
    cases operand with
    | plain d =>
      cases d with
      | int k =>
        cases converted
        exact .int n
      | float x =>
        rw [Operand.integer] at converted
        cases whole : Double.truncate x with
        | ok k =>
          rw [whole] at converted
          cases converted
          obtain ⟨q, value, rfl⟩ := Double.truncate_eq_ok_iff.mp whole
          exact .float value
        | error reason =>
          rw [whole] at converted
          cases reason <;> cases converted
      | bool b =>
        cases converted
        exact .bool b
      | str text => exact .text (integerOfText_eq_ok_iff.mp converted)
      | _ => cases converted
    | _ => cases converted
  · intro writes
    cases writes with
    | float value => rw [Operand.integer, Double.truncate_eq_ok_iff.mpr ⟨_, value, rfl⟩]
    | text written => exact integerOfText_eq_ok_iff.mpr written
    | _ => rfl

theorem Builder.fits_of_takes {α : Type} {builder : Builder} {xs : List α}
    (takes : builder.takes xs.length = true) : builder.Fits xs := by
  cases builder with
  | variadic op =>
    obtain _ | ⟨a, _ | ⟨b, others⟩⟩ := xs
    · cases takes
    · cases takes
    · exact .variadic op a b others
  | comparison op =>
    obtain ⟨left, right, rfl⟩ := List.length_eq_two.mp (eq_of_beq takes)
    exact .comparison op left right
  | conditional =>
    rcases Bool.or_eq_true_iff.mp takes with two | three
    · obtain ⟨expr, ifNode, rfl⟩ := List.length_eq_two.mp (eq_of_beq two)
      exact .withoutElse expr ifNode
    · obtain ⟨expr, ifNode, elseNode, rfl⟩ := List.length_eq_three.mp (eq_of_beq three)
      exact .conditional expr ifNode elseNode
  | _ =>
    obtain ⟨x, rfl⟩ := List.length_eq_one_iff.mp (eq_of_beq takes)
    constructor

/-- A builder converts its operands and puts the graphs together. -/
theorem Builder.build_eq {builder : Builder} {operands : List Operand}
    (takes : builder.takes operands.length = true) :
    builder.build operands = builder.graphOver <$> operands.mapM builder.convert := by
  cases Builder.fits_of_takes takes with
  | variadic op a b others =>
    simp only [Builder.build, List.mapM_cons, map_bind, bind_pure_comp, Functor.map_map]
    rfl
  | withoutElse expr ifNode =>
    have zero : (Operand.plain (.int 0)).toGraph = pure (literalGraph 0) := numberGraph_zero
    simp only [Builder.build, zero, List.mapM_cons, List.mapM_nil, map_bind, map_pure, pure_bind,
      bind_assoc]
    rfl
  | _ => simp [Builder.build, Builder.convert, Builder.graphOver]

section Failures

variable {α β : Type}

theorem BuildFailure.of?_map (f : α → β) (run : Except BuildFailure α) :
    BuildFailure.of? (f <$> run) = BuildFailure.of? run := by
  cases run <;> rfl

theorem BuildFailure.of?_eq_none_iff {run : Except BuildFailure α} :
    BuildFailure.of? run = none ↔ ∃ x, run = .ok x := by
  cases run <;> simp [BuildFailure.of?]

theorem BuildFailure.of?_eq_some_iff {run : Except BuildFailure α} {failure : BuildFailure} :
    BuildFailure.of? run = some failure ↔ run = .error failure := by
  cases run <;> simp [BuildFailure.of?]

/-- Of several runs in a row the first one that fails gives the failure. -/
theorem BuildFailure.of?_mapM (f : α → Except BuildFailure β) (xs : List α) :
    BuildFailure.of? (xs.mapM f) = xs.findSome? fun x => BuildFailure.of? (f x) := by
  induction xs with
  | nil => rfl
  | cons x rest ih =>
    rw [List.mapM_cons, List.findSome?_cons]
    cases f x with
    | error failure => rfl
    | ok y => exact (BuildFailure.of?_map _ _).trans ih

end Failures

theorem findSome?_flatMap {α β γ : Type} {f : β → Option γ} {g : α → List β} {found : α → Option γ}
    {xs : List α} (each : ∀ x ∈ xs, (g x).findSome? f = found x) :
    (xs.flatMap g).findSome? f = xs.findSome? found := by
  induction xs with
  | nil => rfl
  | cons x rest ih =>
    obtain ⟨first, others⟩ := List.forall_mem_cons.mp each
    rw [List.flatMap_cons, List.findSome?_append, List.findSome?_cons, first, ih others]
    cases found x <;> rfl

theorem Construction.built_call (builder : Builder) (arguments : List Construction) :
    (Construction.call builder arguments).built = Operand.plain <$>
      (arguments.mapM Construction.built >>= builder.build) := by
  rw [Construction.built, Construction.builtAll_eq_mapM, map_bind]
  rfl

/-- A list that is mapped without a failure, with the result for each of its members. -/
theorem exists_pairs_of_mapM {ε α β : Type} {f : α → Except ε β} {xs : List α} {ys : List β}
    (mapped : xs.mapM f = .ok ys) :
    ∃ pairs : List (α × β), pairs.map Prod.fst = xs ∧ pairs.map Prod.snd = ys ∧
      ∀ pair ∈ pairs, f pair.1 = .ok pair.2 := by
  induction xs generalizing ys with
  | nil =>
    cases mapped
    exact ⟨[], rfl, rfl, List.forall_mem_nil _⟩
  | cons x rest ih =>
    rw [List.mapM_cons] at mapped
    obtain ⟨y, first, mapped⟩ := Except.bind_eq_ok_iff.mp mapped
    obtain ⟨others, later, same⟩ := Except.bind_eq_ok_iff.mp mapped
    cases same
    obtain ⟨pairs, rfl, rfl, each⟩ := ih later
    exact ⟨(x, y) :: pairs, rfl, rfl, List.forall_mem_cons.mpr ⟨first, each⟩⟩

/-- A nested call fails with the failure of its first conversion that fails. -/
theorem Construction.Proper.firstFailure {construction : Construction}
    (proper : construction.Proper) :
    construction.conversions.findSome? BuildFailure.of? = BuildFailure.of? construction.built := by
  induction proper with
  | given read => rfl
  | @call builder arguments takes each ih =>
    have inner : (arguments.flatMap Construction.conversions).findSome? BuildFailure.of? =
        BuildFailure.of? (arguments.mapM Construction.built) := by
      rw [BuildFailure.of?_mapM]
      exact findSome?_flatMap ih
    rw [Construction.conversions, Construction.allConversions_eq_flatMap, List.findSome?_append, inner,
      Construction.built_call, BuildFailure.of?_map]
    cases given : arguments.mapM Construction.built with
    | error failure => rfl
    | ok operands =>
      obtain ⟨pairs, rfl, rfl, each⟩ := exists_pairs_of_mapM given
      have own : ((pairs.map Prod.fst).map fun argument => argument.built >>= builder.convert) =
          (pairs.map Prod.snd).map builder.convert := by
        rw [List.map_map, List.map_map]
        refine List.map_congr_left fun pair member => ?_
        simp only [Function.comp_apply, each pair member]
        rfl
      have fits : builder.takes (pairs.map Prod.snd).length = true := by
        simpa using takes
      rw [own, List.findSome?_map]
      change ((pairs.map Prod.snd).findSome? fun operand =>
        BuildFailure.of? (builder.convert operand)) =
          BuildFailure.of? (builder.build (pairs.map Prod.snd))
      rw [Builder.build_eq fits, BuildFailure.of?_map, BuildFailure.of?_mapM]

/-- The graph of a call that succeeds is the one over the graphs of its arguments. -/
theorem Construction.pairs_of_built_call {builder : Builder} {arguments : List Construction}
    {operand : Operand} (takes : builder.takes arguments.length = true)
    (built : (Construction.call builder arguments).built = .ok operand) :
    ∃ pairs : List (Construction × Json), pairs.map Prod.fst = arguments ∧
      operand = .plain (builder.graphOver (pairs.map Prod.snd)) ∧
      ∀ pair ∈ pairs, pair.1.built >>= builder.convert = .ok pair.2 := by
  rw [Construction.built_call] at built
  cases given : arguments.mapM Construction.built with
  | error failure =>
    rw [given] at built
    cases built
  | ok operands =>
    obtain ⟨operands, rfl, rfl, each⟩ := exists_pairs_of_mapM given
    have fits : builder.takes (operands.map Prod.snd).length = true := by simpa using takes
    rw [given] at built
    change Operand.plain <$> builder.build (operands.map Prod.snd) = .ok operand at built
    rw [Builder.build_eq fits, List.mapM_map] at built
    cases converted : operands.mapM (builder.convert ∘ Prod.snd) with
    | error failure =>
      rw [converted] at built
      cases built
    | ok graphs =>
      rw [converted] at built
      cases built
      obtain ⟨graphs, rfl, rfl, made⟩ := exists_pairs_of_mapM converted
      refine ⟨graphs.map fun entry => (entry.1.1, entry.2), ?_, ?_, ?_⟩
      · simp
      · rw [List.map_map]
        rfl
      · intro pair member
        obtain ⟨entry, inside, rfl⟩ := List.mem_map.mp member
        have given := each entry.1 (List.mem_map_of_mem inside)
        simp only [given]
        exact made entry inside

end TickGraph
