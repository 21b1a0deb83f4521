import Mathlib
import TickGraph.Proofs.Connectives

namespace TickGraph

/-- The integer part of a rational number. -/
def cutOff (q : ℚ) : ℤ :=
  if 0 ≤ q then ⌊q⌋ else ⌈q⌉

instance : Remainder ℚ :=
  ⟨fun x y => x - y * cutOff (x / y)⟩

theorem remainder_eq (x y : ℚ) : Remainder.remainder x y = x - y * cutOff (x / y) := rfl

theorem cutOff_of_nonneg {q : ℚ} (nonneg : 0 ≤ q) : cutOff q = ⌊q⌋ :=
  if_pos nonneg

theorem abs_sub_cutOff (q : ℚ) : |q - cutOff q| < 1 := by
  unfold cutOff
  have below := Int.floor_le q
  have lower := Int.lt_floor_add_one q
  have above := Int.le_ceil q
  have upper := Int.ceil_lt_add_one q
  rw [abs_lt]
  split
  · constructor <;> linarith
  · constructor <;> linarith

section Reduction

variable {p c : ℚ} (nonzero : c ≠ 0)

include nonzero

/-- The quotient that is cut off toward zero leaves a fraction above `-1`; the added divisor makes it
positive, where cutting off is rounding down. -/
theorem flooredModulo_eq : flooredModulo p c = p - c * ⌊p / c⌋ := by
  have quotient : (p - c * cutOff (p / c) + c) / c = p / c - cutOff (p / c) + 1 := by
    field_simp
  have nonneg : 0 ≤ p / c - cutOff (p / c) + 1 := by
    have fraction := (abs_lt.mp (abs_sub_cutOff (p / c))).1
    linarith
  have whole : ⌊p / c - cutOff (p / c) + 1⌋ = ⌊p / c⌋ - cutOff (p / c) + 1 := by
    rw [Int.floor_add_one, Int.floor_sub_intCast]
  unfold flooredModulo
  rw [remainder_eq, remainder_eq, quotient, cutOff_of_nonneg nonneg, whole]
  push_cast
  ring

/-- What is left is a fraction of the divisor. -/
theorem flooredModulo_eq_fract : flooredModulo p c = c * Int.fract (p / c) := by
  rw [flooredModulo_eq nonzero, Int.fract, mul_sub, mul_div_cancel₀ p nonzero]

theorem flooredModulo_add_mul (k : ℤ) : flooredModulo (p + k * c) c = flooredModulo p c := by
  rw [flooredModulo_eq_fract nonzero, flooredModulo_eq_fract nonzero, add_div,
    mul_div_cancel_right₀ _ nonzero, Int.fract_add_intCast]

end Reduction

/-- The half-open interval from zero up to a positive divisor or down to a negative one. -/
def InRangeOf (c r : ℚ) : Prop :=
  (0 < c → 0 ≤ r ∧ r < c) ∧ (c < 0 → c < r ∧ r ≤ 0)

theorem inRangeOf_flooredModulo (p : ℚ) {c : ℚ} (nonzero : c ≠ 0) :
    InRangeOf c (flooredModulo p c) := by
  have least := Int.fract_nonneg (p / c)
  have less := Int.fract_lt_one (p / c)
  rw [flooredModulo_eq_fract nonzero]
  constructor
  · intro positive
    exact ⟨mul_nonneg positive.le least, mul_lt_of_lt_one_right positive less⟩
  · intro negative
    exact ⟨lt_mul_of_lt_one_right negative less, mul_nonpos_of_nonpos_of_nonneg negative.le least⟩

/-- A fold of reductions ends with the reduction by the last divisor. -/
theorem foldl_flooredModulo (p : ℚ) (divisors : List ℚ) (nonzero : ∀ c ∈ divisors, c ≠ 0) :
    divisors.foldl flooredModulo p =
        divisors.foldl (fun (p c : ℚ) => p - c * (⌊p / c⌋ : ℤ)) p ∧
      ∀ c, divisors.getLast? = some c → InRangeOf c (divisors.foldl flooredModulo p) := by
  induction divisors generalizing p with
  | nil => exact ⟨rfl, fun c last => by cases last⟩
  | cons c rest ih =>
    have first := nonzero c (List.mem_cons_self ..)
    obtain ⟨same, range⟩ := ih (flooredModulo p c) fun d member =>
      nonzero d (List.mem_cons_of_mem _ member)
    rw [List.foldl_cons, List.foldl_cons]
    refine ⟨?_, fun d last => ?_⟩
    · rw [same, flooredModulo_eq first]
    · cases rest with
      | nil =>
        cases last
        exact inRangeOf_flooredModulo p first
      | cons next others => exact range d last

section Values

variable {H : Type} {mode : ReferenceMode} {before now : World H} {a b : Node} {others : List Node}

/-- The value of a variadic node is the fold of the values of its operands. -/
theorem ReferenceMode.valueOf_fold (op : VariadicOp) {x y : Float} {rest : List Float}
    (evaluated : (a :: b :: others).mapM (mode.valueOf before now) = .ok (x :: y :: rest)) :
    mode.valueOf before now (.variadic op a b others) = .ok (foldOperands op.apply x y rest) := by
  have each := Except.mapM_eq_ok_iff.mp evaluated
  rw [List.map_cons, List.map_cons, List.map_cons, List.map_cons] at each
  obtain ⟨first, each⟩ := List.cons.inj each
  obtain ⟨second, each⟩ := List.cons.inj each
  have further := Except.mapM_eq_ok_iff.mpr each
  rw [← Code.outcome_runs_lowers] at further
  unfold ReferenceMode.valueOf at first second ⊢
  simp only [Node.lower, Code.run, Traced.outcome_bind, Traced.outcome_pure, first, second, further]
  rfl

end Values

/-- Modulo is floored for divisors of both signs. A modulo node folds the values of its operands by a
reduction that is, in exact arithmetic, the remainder of a division rounded down: it lies between zero
and the divisor, differs from the number by a multiple of the divisor and is the same for all numbers
that differ so. With several divisors, none of them zero, the fold is that of these remainders and lies
in the range of the last one. -/
theorem modulo_floored {H : Type} (mode : ReferenceMode) (before now : World H) :
    (∀ a b others x y rest, (a :: b :: others).mapM (mode.valueOf before now) = .ok (x :: y :: rest) →
      mode.valueOf before now (.variadic .modulo a b others) =
        .ok (foldOperands flooredModulo x y rest)) ∧
    (∀ p c : ℚ, c ≠ 0 →
      flooredModulo p c = p - c * (⌊p / c⌋ : ℤ) ∧
      (0 < c → 0 ≤ flooredModulo p c ∧ flooredModulo p c < c) ∧
      (c < 0 → c < flooredModulo p c ∧ flooredModulo p c ≤ 0) ∧
      (∃ k : ℤ, flooredModulo p c = p + k * c) ∧
      ∀ k : ℤ, flooredModulo (p + k * c) c = flooredModulo p c) ∧
    ∀ (p c : ℚ) (rest : List ℚ), (∀ divisor ∈ c :: rest, divisor ≠ 0) →
      let folded := foldOperands flooredModulo p c rest
      folded = (c :: rest).foldl (fun (p c : ℚ) => p - c * (⌊p / c⌋ : ℤ)) p ∧
      ∀ last, (c :: rest).getLast? = some last →
        (0 < last → 0 ≤ folded ∧ folded < last) ∧ (last < 0 → last < folded ∧ folded ≤ 0) := by
  refine ⟨?_, ?_, ?_⟩
  · intro a b others x y rest evaluated
    exact ReferenceMode.valueOf_fold .modulo evaluated
  · intro p c nonzero
    have range := inRangeOf_flooredModulo p nonzero
    have multiple : flooredModulo p c = p + ((-⌊p / c⌋ : ℤ) : ℚ) * c := by
      rw [flooredModulo_eq nonzero]
      push_cast
      ring
    exact ⟨flooredModulo_eq nonzero, range.1, range.2, ⟨_, multiple⟩, flooredModulo_add_mul nonzero⟩
  · intro p c rest nonzero folded
    exact foldl_flooredModulo p (c :: rest) nonzero

/-- The first divisor is positive and the last one is not. -/
theorem modulo_floored_negative_divisor :
    let root : Node := .variadic .modulo (.number (-7)) (.number 3) [.reference 1]
    let world := World.ofEntries [(1, some (.int (-5)))]
    ReferenceMode.compile.valueOf world world root = .ok (-3) ∧
      flooredModulo (-7 : ℚ) 3 = 2 ∧
      let folded := foldOperands flooredModulo (-7 : ℚ) 3 [-5]
      folded = -3 ∧ -5 < folded ∧ folded ≤ 0 := by
  intro root world
  obtain ⟨node, single, folds⟩ := modulo_floored .compile world world
  have evaluated : [Node.number (-7), .number 3, .reference 1].mapM
      (ReferenceMode.compile.valueOf world world) = .ok [-7, 3, -5] := by decide +kernel
  have value := node _ _ _ _ _ _ evaluated
  obtain ⟨floored, -⟩ := single (-7) 3 (by norm_num)
  obtain ⟨same, range⟩ := folds (-7) 3 [-5] (by norm_num)
  refine ⟨value.trans ?_, floored.trans ?_, same.trans ?_, (range (-5) rfl).2 (by norm_num)⟩
  · decide +kernel
  · have quotient : ⌊(-7 / 3 : ℚ)⌋ = -3 := by norm_num
    rw [quotient]
    norm_num
  · have first : ⌊(-7 / 3 : ℚ)⌋ = -3 := by norm_num
    have second : ⌊(2 / -5 : ℚ)⌋ = -1 := by norm_num
    simp only [List.foldl_cons, List.foldl_nil, first]
    norm_num

end TickGraph
