import Mathlib
import TickGraph.Proofs.Diagnostics

open Float.Model (UnpackedFloat)

namespace TickGraph

theorem Double.pack_unpack (x : Float) :
    UnpackedFloat.pack .binary64 x.toModel.unpack = x.toModel.toBits.toBitVec := by
  rw [Float.Model.unpack, UnpackedFloat.pack_unpack _ (by decide)]
  split
  · rename_i nan
    obtain ⟨exponent, mantissa⟩ := of_decide_eq_true nan
    exact (x.toModel.valid.eq_packedNaN exponent mantissa).symm
  · rfl

/-- A double is given by its sign, mantissa and exponent. There is one NaN. -/
theorem Double.eq_of_unpack {x y : Float} (same : x.toModel.unpack = y.toModel.unpack) : x = y := by
  obtain ⟨⟨⟨bits⟩, valid⟩⟩ := x
  obtain ⟨⟨⟨others⟩, valid'⟩⟩ := y
  have first := Double.pack_unpack ⟨⟨⟨bits⟩, valid⟩⟩
  rw [same, Double.pack_unpack ⟨⟨⟨others⟩, valid'⟩⟩] at first
  cases first
  rfl

/-- The zeros of both signs. -/
def Double.IsZero (x : Float) : Prop :=
  x = 0 ∨ x = -0

instance : DecidablePred Double.IsZero :=
  fun x => inferInstanceAs (Decidable (x = 0 ∨ x = -0))

/-- Zeros are false, and nothing else is. -/
theorem Double.truthy_eq_false_iff {x : Float} : Double.truthy x = false ↔ Double.IsZero x := by
  constructor
  · intro falsy
    have equal : (x == 0) = true := by simpa [Double.truthy, bne] using falsy
    have zero : x.toModel.unpack.beq (.zero .positive) = true := equal
    cases unpacked : x.toModel.unpack with
    | zero sign =>
      cases sign with
      | positive => exact Or.inl (Double.eq_of_unpack unpacked)
      | negative => exact Or.inr (Double.eq_of_unpack unpacked)
    | notANumber => rw [unpacked] at zero; cases zero
    | infinity sign => rw [unpacked] at zero; cases sign <;> cases zero
    | finite sign m e positive => rw [unpacked] at zero; cases sign <;> cases zero
  · rintro (rfl | rfl) <;> decide

theorem Double.truthy_flag (b : Bool) : Double.truthy (Double.flag b) = b := by
  cases b <;> decide

theorem Double.isZero_not (x : Float) : Double.IsZero (UnaryOp.not.apply x) ↔ ¬ Double.IsZero x := by
  rw [← Double.truthy_eq_false_iff, ← Double.truthy_eq_false_iff, UnaryOp.apply, Double.truthy_flag]
  cases Double.truthy x <;> simp

/-- The truth value that settles an operator as soon as one operand has it. -/
def VariadicOp.settling? : VariadicOp → Option Bool
  | .and => some false
  | .or => some true
  | _ => none

/-- What an operator makes of truth values that `stop` settles. -/
def settled (stop : Bool) (truths : List Bool) : Bool :=
  if stop ∈ truths then stop else !stop

section Fold

variable {op : VariadicOp} {stop : Bool} (settles : op.settling? = some stop)

include settles

theorem VariadicOp.apply_eq_settled (x y : Float) :
    op.apply x y = Double.flag (settled stop [Double.truthy x, Double.truthy y]) := by
  cases op with
  | and =>
    cases settles
    rw [VariadicOp.apply]
    cases Double.truthy x <;> cases Double.truthy y <;> rfl
  | or =>
    cases settles
    rw [VariadicOp.apply]
    cases Double.truthy x <;> cases Double.truthy y <;> rfl
  | _ => cases settles

theorem VariadicOp.foldl_eq_settled (truth : Bool) (xs : List Float) :
    xs.foldl op.apply (Double.flag truth) =
      Double.flag (settled stop (truth :: xs.map Double.truthy)) := by
  induction xs generalizing truth with
  | nil => cases stop <;> cases truth <;> rfl
  | cons x rest ih =>
    rw [List.foldl_cons, VariadicOp.apply_eq_settled settles, Double.truthy_flag, ih, List.map_cons]
    cases stop <;> cases truth <;> cases Double.truthy x <;> simp [settled]

/-- The fold looks at the truth values of its operands alone. -/
theorem VariadicOp.foldOperands_eq_settled (a b : Float) (others : List Float) :
    foldOperands op.apply a b others =
      Double.flag (settled stop ((a :: b :: others).map Double.truthy)) := by
  unfold foldOperands
  rw [VariadicOp.apply_eq_settled settles, VariadicOp.foldl_eq_settled settles]
  cases stop <;> cases ta : Double.truthy a <;> cases tb : Double.truthy b <;>
    simp [settled, ta, tb]

end Fold

variable {H : Type}

/-- What a tree gives in a call that is made now, as a part of an expression that was compiled
before. -/
def ReferenceMode.valueOf (mode : ReferenceMode) (before now : World H) (node : Node) :
    Except OutOfRange Float :=
  ((node.lower (mode.leafCode before)).run now).outcome

theorem Traced.outcome_bind {ε α β : Type} (run : Traced ε α) (next : α → Traced ε β) :
    (run >>= next).outcome = run.outcome >>= fun a => (next a).outcome := by
  cases done : run.outcome with
  | error error => rw [Traced.bind_of_error _ done]; rfl
  | ok a => rw [Traced.bind_of_ok _ done]; rfl

theorem Traced.outcome_pure {ε α : Type} (a : α) : (pure a : Traced ε α).outcome = .ok a := rfl

theorem Code.outcome_runs_lowers (mode : ReferenceMode) (before now : World H) (nodes : List Node) :
    (Code.runs now (Node.lowers (mode.leafCode before) nodes)).outcome =
      nodes.mapM (mode.valueOf before now) := by
  induction nodes with
  | nil => rfl
  | cons node rest ih =>
    simp only [Node.lowers, Code.runs, Traced.outcome_bind, Traced.outcome_pure, ih, List.mapM_cons,
      ReferenceMode.valueOf]
    rfl

section Values

variable {mode : ReferenceMode} {before now : World H} {a b : Node} {others : List Node}

theorem ReferenceMode.valueOf_unary (op : UnaryOp) (v : Node) :
    mode.valueOf before now (.unary op v) = (mode.valueOf before now v).map op.apply := by
  unfold ReferenceMode.valueOf
  rw [Node.lower, Code.run, Traced.outcome_bind]
  cases ((v.lower (mode.leafCode before)).run now).outcome <;> rfl

theorem ReferenceMode.valueOf_variadic {op : VariadicOp} {stop : Bool}
    (settles : op.settling? = some stop) :
    mode.valueOf before now (.variadic op a b others) =
      ((a :: b :: others).mapM (mode.valueOf before now)).map fun values =>
        Double.flag (settled stop (values.map Double.truthy)) := by
  have fold := VariadicOp.foldOperands_eq_settled settles
  rw [List.mapM_cons, List.mapM_cons, ← Code.outcome_runs_lowers]
  unfold ReferenceMode.valueOf
  simp only [Node.lower, Code.run, Traced.outcome_bind, Traced.outcome_pure]
  cases ((a.lower (mode.leafCode before)).run now).outcome with
  | error error => rfl
  | ok x =>
    cases ((b.lower (mode.leafCode before)).run now).outcome with
    | error error => rfl
    | ok y =>
      cases (Code.runs now (Node.lowers (mode.leafCode before) others)).outcome with
      | error error => rfl
      | ok rest => exact congrArg Except.ok (fold x y rest)

end Values

theorem Except.mapM_eq_ok_iff {ε α β : Type} {f : α → Except ε β} {xs : List α} {ys : List β} :
    xs.mapM f = .ok ys ↔ xs.map f = ys.map Except.ok := by
  induction xs generalizing ys with
  | nil => cases ys <;> simp [pure, Except.pure]
  | cons x rest ih =>
    rw [List.mapM_cons, List.map_cons]
    constructor
    · intro mapped
      obtain ⟨y, first, mapped⟩ := Except.bind_eq_ok_iff.mp mapped
      obtain ⟨others, later, same⟩ := Except.bind_eq_ok_iff.mp mapped
      cases same
      rw [first, ih.mp later, List.map_cons]
    · intro same
      cases ys with
      | nil => cases same
      | cons y others =>
        obtain ⟨first, later⟩ := List.cons.inj same
        rw [first, ih.mpr later]
        rfl

section Members

variable {ε α β : Type} {f : α → Except ε β} {xs zs : List α} {ys : List β}
  (mapped : xs.mapM f = .ok ys)

include mapped

theorem Except.mem_of_mapM {y : β} : y ∈ ys ↔ ∃ x ∈ xs, f x = .ok y := by
  rw [← List.mem_map, Except.mapM_eq_ok_iff.mp mapped, List.mem_map_of_injective fun _ _ => Except.ok.inj]

/-- Elements of a list that is mapped without an error can be mapped in any order and number. -/
theorem Except.exists_mapM_of_subset (among : zs ⊆ xs) : ∃ ws, zs.mapM f = .ok ws := by
  have values : ∀ result ∈ zs.map f, result ∈ Set.range Except.ok := by
    intro result member
    obtain ⟨z, inside, rfl⟩ := List.mem_map.mp member
    have value := List.mem_map_of_mem (f := f) (among inside)
    rw [Except.mapM_eq_ok_iff.mp mapped] at value
    obtain ⟨y, _, same⟩ := List.mem_map.mp value
    exact ⟨y, same⟩
  have listed : zs.map f ∈ Set.range (List.map Except.ok) := by
    rw [Set.range_list_map]
    exact values
  obtain ⟨ws, same⟩ := listed
  exact ⟨ws, Except.mapM_eq_ok_iff.mpr same.symm⟩

end Members

/-- Which of the two results comes out says whether some operand has the truth value that settles it. -/
theorem settled_map_truthy (stop : Bool) (values : List Float) :
    settled stop (values.map Double.truthy) =
      if ∃ x ∈ values, Double.truthy x = stop then stop else !stop := by
  simp only [settled, List.mem_map]

section Connectives

variable {mode : ReferenceMode} {before now : World H} {a b c d : Node} {others rest : List Node}
  {values : List Float}
  (evaluated : (a :: b :: others).mapM (mode.valueOf before now) = .ok values)

include evaluated

theorem ReferenceMode.valueOf_and :
    mode.valueOf before now (.variadic .and a b others) =
      .ok (if ∃ x ∈ values, Double.IsZero x then 0 else 1) := by
  have settles : VariadicOp.and.settling? = some false := rfl
  rw [ReferenceMode.valueOf_variadic settles, evaluated]
  simp only [Except.map, settled_map_truthy, Double.truthy_eq_false_iff]
  split <;> rfl

theorem ReferenceMode.valueOf_or :
    mode.valueOf before now (.variadic .or a b others) =
      .ok (if ∀ x ∈ values, Double.IsZero x then 0 else 1) := by
  have settles : VariadicOp.or.settling? = some true := rfl
  rw [ReferenceMode.valueOf_variadic settles, evaluated]
  simp only [Except.map, settled_map_truthy, ← Double.truthy_eq_false_iff, ← Bool.not_eq_true]
  by_cases some : ∃ x ∈ values, Double.truthy x = true
  · have notAll : ¬ ∀ x ∈ values, ¬ Double.truthy x = true := by simpa using some
    rw [if_pos some, if_neg notAll]
    rfl
  · have all : ∀ x ∈ values, ¬ Double.truthy x = true := by simpa using some
    rw [if_neg some, if_pos all]
    rfl

/-- The operands may stand in any order, and any of them more than once. -/
theorem ReferenceMode.valueOf_of_same_operands {op : VariadicOp} {stop : Bool}
    (settles : op.settling? = some stop)
    (same : ∀ node, node ∈ c :: d :: rest ↔ node ∈ a :: b :: others) :
    mode.valueOf before now (.variadic op c d rest) =
      mode.valueOf before now (.variadic op a b others) := by
  obtain ⟨further, again⟩ :=
    Except.exists_mapM_of_subset evaluated fun node member => (same node).mp member
  have members (x : Float) : x ∈ further ↔ x ∈ values := by
    rw [Except.mem_of_mapM again, Except.mem_of_mapM evaluated]
    simp only [same]
  rw [ReferenceMode.valueOf_variadic settles, ReferenceMode.valueOf_variadic settles, again, evaluated]
  simp only [Except.map, settled_map_truthy, members]

/-- What is not the conjunction is the disjunction of what the operands are not. -/
theorem ReferenceMode.valueOf_not_and :
    mode.valueOf before now (.unary .not (.variadic .and a b others)) =
      mode.valueOf before now
        (.variadic .or (.unary .not a) (.unary .not b) (others.map (.unary .not))) := by
  have negated : ((a :: b :: others).map (Node.unary .not)).mapM (mode.valueOf before now) =
      .ok (values.map UnaryOp.not.apply) := by
    have each := congrArg (List.map (Except.map UnaryOp.not.apply))
      (Except.mapM_eq_ok_iff.mp evaluated)
    rw [List.map_map, List.map_map] at each
    rw [Except.mapM_eq_ok_iff, List.map_map, List.map_map]
    exact (List.map_congr_left fun node _ => ReferenceMode.valueOf_unary .not node).trans each
  rw [List.map_cons, List.map_cons] at negated
  rw [ReferenceMode.valueOf_unary, ReferenceMode.valueOf_and evaluated,
    ReferenceMode.valueOf_or negated]
  simp only [List.forall_mem_map, Double.isZero_not]
  by_cases zero : ∃ x ∈ values, Double.IsZero x
  · have notAll : ¬ ∀ x ∈ values, ¬ Double.IsZero x := by simpa using zero
    rw [if_pos zero, if_neg notAll]
    decide
  · have all : ∀ x ∈ values, ¬ Double.IsZero x := by simpa using zero
    rw [if_neg zero, if_pos all]
    decide

end Connectives

/-- In a call every part of a compiled expression gives its `valueOf`. Where the operands of a
conjunction have values, it is zero if one of them is a zero of either sign, and one otherwise; a
disjunction is zero if all of them are. So it does not matter in which order the operands stand, or how
often each of them does; and what is not a conjunction is the disjunction of what the operands are not. -/
theorem compile_call_connectives {config : Config} {before : World H} {source : Source}
    {expression : Compiled H} (success : (compile config before source).outcome = .ok expression)
    (now : World H) :
    let value := config.mode.valueOf before now
    (∀ steps node, expression.root.at? steps = some node →
      ∃ code, expression.code.at? steps = some code ∧ (code.run now).outcome = value node) ∧
    ∀ a b others values, (a :: b :: others).mapM value = .ok values →
      value (.variadic .and a b others) = .ok (if ∃ x ∈ values, x = 0 ∨ x = -0 then 0 else 1) ∧
      value (.variadic .or a b others) = .ok (if ∀ x ∈ values, x = 0 ∨ x = -0 then 0 else 1) ∧
      (∀ op c d rest, op = .and ∨ op = .or →
        (∀ node, node ∈ c :: d :: rest ↔ node ∈ a :: b :: others) →
          value (.variadic op c d rest) = value (.variadic op a b others)) ∧
      value (.unary .not (.variadic .and a b others)) =
        value (.variadic .or (.unary .not a) (.unary .not b) (others.map (.unary .not))) := by
  intro value
  refine ⟨?_, fun a b others values evaluated => ⟨?_, ?_, ?_, ?_⟩⟩
  · intro steps node present
    rw [code_of_compile success]
    exact ⟨_, Node.at?_lower present, rfl⟩
  · exact ReferenceMode.valueOf_and evaluated
  · exact ReferenceMode.valueOf_or evaluated
  · intro op c d rest logical same
    have settles : ∃ stop, op.settling? = some stop := by
      rcases logical with rfl | rfl
      · exact ⟨false, rfl⟩
      · exact ⟨true, rfl⟩
    obtain ⟨stop, settles⟩ := settles
    exact ReferenceMode.valueOf_of_same_operands evaluated settles same
  · exact ReferenceMode.valueOf_not_and evaluated

/-- NaN is true and the negative zero is not. -/
theorem compile_call_connectives_nan :
    let nan : Float := 0 / 0
    let root : Node := .variadic .and (.reference 1) (.number 3) [.reference 2, .reference 1]
    let world := World.ofEntries [(1, some (.float nan)), (2, some (.float (-0)))]
    let value := ReferenceMode.compile.valueOf world world
    ∃ expression, (compile Config.standard world (.tree root)).outcome = .ok expression ∧
      (expression.call world).outcome = .ok 0 ∧
      value (.variadic .or (.reference 1) (.number 3) [.reference 2, .reference 1]) = .ok 1 ∧
      value (.variadic .and (.reference 2) (.number 3) [.reference 1]) = .ok 0 ∧
      value (.variadic .or (.unary .not (.reference 1)) (.unary .not (.number 3))
        [.unary .not (.reference 2), .unary .not (.reference 1)]) = .ok 1 := by
  intro nan root world value
  let expression : Compiled Int :=
    ⟨root, .variadic .and (.captured 1 1) (.constant 3) [.captured 2 2, .captured 1 1]⟩
  have success : (compile Config.standard world (.tree root)).outcome = .ok expression := rfl
  have evaluated : [Node.reference 1, .number 3, .reference 2, .reference 1].mapM value =
      .ok [nan, 3, -0, nan] := rfl
  obtain ⟨parts, values⟩ := compile_call_connectives success world
  obtain ⟨conjunction, disjunction, alike, negated⟩ := values _ _ _ _ evaluated
  have zero : value root = .ok 0 := conjunction.trans (by decide +kernel)
  obtain ⟨code, here, called⟩ := parts [] root rfl
  cases here
  refine ⟨expression, success, called.trans zero, disjunction.trans (by decide +kernel), ?_, ?_⟩
  · refine (alike .and _ _ _ (Or.inl rfl) fun node => ?_).trans zero
    simp only [List.mem_cons, List.not_mem_nil, or_false]
    tauto
  · refine negated.symm.trans ?_
    rw [ReferenceMode.valueOf_unary]
    exact (congrArg (Except.map UnaryOp.not.apply) zero).trans (by decide +kernel)

end TickGraph
