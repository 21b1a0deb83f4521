import Mathlib
import TickGraph.Proofs.FlooredModulo
import TickGraph.Proofs.Rounding

open Float.Model (UnpackedFloat)
open Float.Model.UnpackedFloat (Sign)

namespace TickGraph

section Remainder

variable {p c : ℚ}

theorem cutOff_neg (q : ℚ) : cutOff (-q) = -cutOff q := by
  unfold cutOff
  rcases lt_trichotomy q 0 with less | rfl | greater
  · rw [if_pos (by linarith), if_neg (by linarith), Int.floor_neg]
  · simp
  · rw [if_neg (by linarith), if_pos (by linarith), Int.ceil_neg]

theorem remainder_neg_left : Remainder.remainder (-p) c = -Remainder.remainder p c := by
  rw [remainder_eq, remainder_eq, neg_div, cutOff_neg]
  push_cast
  ring

theorem remainder_neg_right : Remainder.remainder p (-c) = Remainder.remainder p c := by
  rw [remainder_eq, remainder_eq, div_neg, cutOff_neg]
  push_cast
  ring

theorem remainder_of_nonneg (nonneg : 0 ≤ p / c) (nonzero : c ≠ 0) :
    Remainder.remainder p c = c * Int.fract (p / c) := by
  rw [remainder_eq, cutOff_of_nonneg nonneg, Int.fract, mul_sub, mul_div_cancel₀ p nonzero]

/-- Multiples of one unit have the remainder of their numbers. -/
theorem remainder_natCast_mul (m n : Nat) {unit : ℚ} (positive : 0 < unit) :
    Remainder.remainder (m * unit) (n * unit) = ((m % n : Nat) : ℚ) * unit := by
  have nonneg : (0 : ℚ) ≤ m / n := div_nonneg (Nat.cast_nonneg m) (Nat.cast_nonneg n)
  have quotient : ⌊(m / n : ℚ)⌋ = ((m / n : Nat) : Int) := Rat.floor_intCast_div_natCast m n
  have division : (m : ℚ) = n * (m / n : Nat) + (m % n : Nat) := by
    exact_mod_cast (Nat.div_add_mod m n).symm
  rw [remainder_eq, mul_div_mul_right _ _ positive.ne', cutOff_of_nonneg nonneg, quotient,
    Int.cast_natCast]
  linear_combination unit * division

/-- A remainder is smaller than its divisor. -/
theorem abs_remainder_lt (p : ℚ) (nonzero : c ≠ 0) : |Remainder.remainder p c| < |c| := by
  have fraction := abs_sub_cutOff (p / c)
  have product : Remainder.remainder p c = c * (p / c - cutOff (p / c)) := by
    rw [remainder_eq, mul_sub, mul_div_cancel₀ p nonzero]
  rw [product, abs_mul]
  exact mul_lt_of_lt_one_right (abs_pos.mpr nonzero) fraction

end Remainder

namespace Double

section Scaled

variable {m n : Nat} {e f : Int}

theorem mul_scale (m : Nat) (e f : Int) :
    ((m * scale 2 (e - f) : Nat) : ℚ) * 2 ^ min e f = m * 2 ^ e := by
  have exponent : e = (e - f).toNat + min e f := by omega
  have power : ((scale 2 (e - f) : Nat) : ℚ) = 2 ^ (e - f).toNat := by
    unfold scale
    rw [Nat.pow_eq, Nat.cast_pow, Nat.cast_ofNat]
  rw [Nat.cast_mul, power, mul_assoc, ← zpow_natCast, ← zpow_add₀ two_ne_zero, ← exponent]

/-- A remainder has no more digits than one of the two numbers, and is not larger than the first. -/
theorem scaledRemainder_lt (left : Canonical m e) (right : Canonical n f) (positive : 0 < n) :
    scaledRemainder m e n f < 2 ^ 53 := by
  unfold scaledRemainder
  by_cases order : e ≤ f
  · have one : scale 2 (e - f) = 1 := by
      unfold scale
      rw [Int.toNat_of_nonpos (by omega)]
    rw [one, Nat.mul_one]
    exact (Nat.mod_le ..).trans_lt left.lt
  · have one : scale 2 (f - e) = 1 := by
      unfold scale
      rw [Int.toNat_of_nonpos (by omega)]
    rw [one, Nat.mul_one]
    exact (Nat.mod_lt _ positive).trans right.lt

theorem scaledRemainder_value (m : Nat) (e : Int) (n : Nat) (f : Int) :
    (scaledRemainder m e n f : ℚ) * 2 ^ min e f =
      Remainder.remainder ((m : ℚ) * 2 ^ e) (n * 2 ^ f) := by
  have dividend := mul_scale m e f
  have divisor := mul_scale n f e
  rw [min_comm] at divisor
  rw [← dividend, ← divisor, remainder_natCast_mul _ _ (two_zpow_pos _)]
  rfl

theorem apply_scaledRemainder (s t : Sign) (m : Nat) (e : Int) (n : Nat) (f : Int) :
    ((s.apply (scaledRemainder m e n f) : Int) : ℚ) * 2 ^ min e f =
      Remainder.remainder (((s.apply m : Int) : ℚ) * 2 ^ e) (((t.apply n : Int) : ℚ) * 2 ^ f) := by
  have value := scaledRemainder_value m e n f
  cases s <;> cases t <;>
    simp only [Sign.apply, Int.cast_neg, Int.cast_natCast, neg_mul, remainder_neg_left,
      remainder_neg_right, value]

end Scaled

section Modulo

variable {x y : Float} {p c : ℚ}

/-- Nothing is rounded in a remainder of doubles. -/
theorem toRat?_remainder (left : toRat? x = some p) (right : toRat? y = some c) (nonzero : c ≠ 0) :
    toRat? (remainder x y) = some (Remainder.remainder p c) := by
  obtain ⟨rfl, -⟩ | ⟨t, n, f, other, second, two, below, rfl⟩ := exists_finite right
  · exact absurd rfl nonzero
  obtain ⟨rfl, s, first⟩ | ⟨s, m, e, positive, first, one, top, rfl⟩ := exists_finite left
  · have itself : remainder x y = x := by
      unfold remainder
      rw [first, second]
    rw [itself, left, remainder_eq, zero_div, cutOff_of_nonneg le_rfl]
    simp
  · have scaled : remainder x y = ofScaled s (scaledRemainder m e n f) (min e f) := by
      unfold remainder
      rw [first, second]
    have size : |s.apply (scaledRemainder m e n f)| = scaledRemainder m e n f := by
      cases s <;> simp [Sign.apply]
    have short := scaledRemainder_lt one two other
    have smaller := abs_remainder_lt (((s.apply m : Int) : ℚ) * 2 ^ e) nonzero
    have inRange := smaller.trans (representable_of_toRat? right).inRange
    rw [scaled]
    rw [← apply_scaledRemainder] at inRange ⊢
    refine (rounded_ofScaled s _ _).value_eq ⟨⟨_, _, ?_, le_min one.least two.least, rfl⟩, inRange⟩
    rw [size]
    exact_mod_cast short

theorem remainder_of_infinite {sign : Sign} (infinite : x.toModel.unpack = .infinity sign)
    (right : toRat? y = some c) : remainder x y = notANumber := by
  unfold remainder
  rw [infinite]
  obtain ⟨-, t, unpacked⟩ | ⟨t, n, f, other, unpacked, -⟩ := exists_finite right
  · rw [unpacked]
  · rw [unpacked]

theorem isNaN_notANumber : notANumber.isNaN = true := by
  decide +kernel

theorem isNaN_of_toRat? (value : toRat? x = some p) : x.isNaN = false := by
  change x.toModel.unpack.isNaN = false
  obtain ⟨-, sign, unpacked⟩ | ⟨sign, m, e, positive, unpacked, -⟩ := exists_finite value
  · rw [unpacked]
    rfl
  · rw [unpacked]
    rfl

/-- Where the sum in between is a double, modulo of doubles is exact. -/
theorem toRat?_modulo (left : toRat? x = some p) (right : toRat? y = some c) (nonzero : c ≠ 0)
    (unrounded : Representable (Remainder.remainder p c + c)) :
    toRat? (VariadicOp.modulo.apply x y) = some (flooredModulo p c) := by
  have sum := (rounded_add (toRat?_remainder left right nonzero) right).value_eq unrounded
  exact toRat?_remainder sum right nonzero

theorem floor_intCast_div (m n : Int) : ⌊(m / n : ℚ)⌋ = m.fdiv n := by
  obtain ⟨k, rfl | rfl⟩ := n.eq_nat_or_neg
  · rw [Int.cast_natCast, Rat.floor_intCast_div_natCast, Int.fdiv_eq_ediv_of_nonneg _ (by omega)]
  · have turned : (m / (-k : Int) : ℚ) = (-m : Int) / k := by
      push_cast
      rw [div_neg, neg_div]
    rw [turned, Rat.floor_intCast_div_natCast, ← Int.neg_fdiv_neg, Int.neg_neg,
      Int.fdiv_eq_ediv_of_nonneg _ (by omega)]

/-- Modulo of integers is exact if the divisor has at most 52 binary digits. -/
theorem toInt?_modulo {m n : Int} (left : toInt? x = some m) (right : toInt? y = some n)
    (nonzero : n ≠ 0) (short : |n| ≤ 2 ^ 52) :
    toInt? (VariadicOp.modulo.apply x y) = some (m.fmod n) := by
  rw [toInt?_eq_some_iff] at left right ⊢
  have divisor : (n : ℚ) ≠ 0 := Int.cast_ne_zero.mpr nonzero
  have whole : Remainder.remainder (m : ℚ) n = (m - n * cutOff (m / n) : Int) := by
    rw [remainder_eq]
    push_cast
    rfl
  have sum : Representable (Remainder.remainder (m : ℚ) n + n) := by
    have smaller := abs_remainder_lt (m : ℚ) divisor
    rw [whole] at smaller ⊢
    have below : |m - n * cutOff (m / n)| < |n| := by exact_mod_cast smaller
    have triangle := abs_add_le (m - n * cutOff (m / n)) n
    rw [← Int.cast_add]
    exact Representable.of_int (by omega)
  rw [toRat?_modulo left right divisor sum, flooredModulo_eq divisor, floor_intCast_div, Int.fmod_def]
  push_cast
  rfl

/-- A fold over integers is exact as well, whatever the size of the first one. -/
theorem toInt?_foldl_modulo {m : Int} {ys : List Float} {ns : List Int} (left : toInt? x = some m)
    (right : ys.map toInt? = ns.map some) (divisors : ∀ n ∈ ns, n ≠ 0 ∧ |n| ≤ 2 ^ 52) :
    toInt? (ys.foldl VariadicOp.modulo.apply x) = some (ns.foldl Int.fmod m) := by
  induction ys generalizing x m ns with
  | nil =>
    cases ns with
    | nil => exact left
    | cons n rest => cases right
  | cons y others ih =>
    cases ns with
    | nil => cases right
    | cons n rest =>
      obtain ⟨first, later⟩ := List.cons.inj right
      obtain ⟨nonzero, short⟩ := divisors n (List.mem_cons_self ..)
      rw [List.foldl_cons, List.foldl_cons]
      exact ih (toInt?_modulo left first nonzero short) later fun d member =>
        divisors d (List.mem_cons_of_mem _ member)

end Modulo

end Double

open Double (Representable toRat?)

section Range

variable {x y : Float} {p c : ℚ}

/-- What is added to a positive divisor is larger than its negative. -/
theorem sum_bounds (positive : 0 < c) :
    0 < Remainder.remainder p c + c ∧ Remainder.remainder p c + c < 2 * c := by
  have smaller := abs_remainder_lt p positive.ne'
  rw [abs_of_pos positive, abs_lt] at smaller
  constructor <;> linarith

/-- If the sum in between is in the range of doubles, modulo is in the range of the divisor. The sum
may be rounded, but not below zero. -/
theorem modulo_of_lt (left : toRat? x = some p) (right : toRat? y = some c) (positive : 0 < c)
    (fits : Remainder.remainder p c + c < Number.doubleLimit) :
    ∃ v, toRat? (VariadicOp.modulo.apply x y) = some v ∧ 0 ≤ v ∧ v < c := by
  have first := Double.toRat?_remainder left right positive.ne'
  have rounded := Double.rounded_add first right
  have bounds := @sum_bounds p c positive
  rw [← abs_of_pos bounds.1] at fits
  obtain ⟨sum, value, nearest⟩ := rounded.inRange fits
  have nonneg := nearest.le_of_le Representable.zero bounds.1.le
  have last := Double.toRat?_remainder value right positive.ne'
  rw [remainder_of_nonneg (div_nonneg nonneg positive.le) positive.ne'] at last
  refine ⟨_, last, mul_nonneg positive.le (Int.fract_nonneg _), ?_⟩
  exact mul_lt_of_lt_one_right positive (Int.fract_lt_one _)

theorem modulo_of_ge (left : toRat? x = some p) (right : toRat? y = some c) (positive : 0 < c)
    (exceeds : Number.doubleLimit ≤ Remainder.remainder p c + c) :
    (VariadicOp.modulo.apply x y).isNaN = true := by
  have first := Double.toRat?_remainder left right positive.ne'
  have infinite := (Double.rounded_add first right).above exceeds
  have last := Double.remainder_of_infinite infinite right
  exact (congrArg Float.isNaN last).trans Double.isNaN_notANumber

/-- Below half of the range no sum is too large. -/
theorem sum_lt_of_lt (representable : Representable c) (positive : 0 < c)
    (small : c < 2 ^ 53 * 2 ^ (970 : Int)) :
    Remainder.remainder p c + c < Number.doubleLimit := by
  have bounds := @sum_bounds p c positive
  rw [← abs_of_pos positive] at small
  have most := representable.le_of_lt small
  rw [abs_of_pos positive] at most
  rw [Double.cast_doubleLimit_half]
  have unit := Double.two_zpow_pos 970
  generalize (2 : ℚ) ^ (970 : Int) = half at most unit
  linarith

/-- The largest double below `2^1023` added to that number or a larger one is out of range. -/
theorem sum_ge_of_ge (large : 2 ^ 53 * 2 ^ (970 : Int) ≤ c) :
    Number.doubleLimit ≤ Remainder.remainder ((2 ^ 53 - 1) * 2 ^ (970 : Int)) c + c := by
  have unit := Double.two_zpow_pos 970
  rw [Double.cast_doubleLimit_half]
  generalize (2 : ℚ) ^ (970 : Int) = half at large unit
  have positive : 0 < c := by linarith
  have nonneg : 0 ≤ (2 ^ 53 - 1) * half := by linarith
  have less : (2 ^ 53 - 1) * half < c := by linarith
  have itself : Remainder.remainder ((2 ^ 53 - 1) * half) c = (2 ^ 53 - 1) * half := by
    have none : cutOff ((2 ^ 53 - 1) * half / c) = 0 := by
      rw [cutOff_of_nonneg (div_nonneg nonneg positive.le), Int.floor_eq_zero_iff]
      exact ⟨div_nonneg nonneg positive.le, (div_lt_one positive).mpr less⟩
    rw [remainder_eq, none, Int.cast_zero, mul_zero, sub_zero]
  rw [itself]
  linarith

end Range

/-- Modulo of finite doubles by a positive one is a number from zero up to the divisor if the sum in
between is in the range of doubles, and NaN if it is not. Divisors from `2^1023` on have a number for which
it is not, and no others have. -/
theorem modulo_of_finite {y : Float} {c : ℚ} (divisor : toRat? y = some c) (positive : 0 < c) :
    (∀ x p, toRat? x = some p →
      let sum := Remainder.remainder p c + c
      (sum < Number.doubleLimit →
        ∃ v, toRat? (VariadicOp.modulo.apply x y) = some v ∧ 0 ≤ v ∧ v < c) ∧
      (Number.doubleLimit ≤ sum → (VariadicOp.modulo.apply x y).isNaN = true)) ∧
    ((∃ x p, toRat? x = some p ∧ (VariadicOp.modulo.apply x y).isNaN = true) ↔
      2 ^ 1023 ≤ c) := by
  have power : (2 : ℚ) ^ 1023 = 2 ^ 53 * 2 ^ (970 : Int) := by decide +kernel
  refine ⟨fun x p dividend => ⟨modulo_of_lt dividend divisor positive,
    modulo_of_ge dividend divisor positive⟩, ?_⟩
  rw [power]
  constructor
  · rintro ⟨x, p, dividend, nan⟩
    by_contra! small
    have fits := @sum_lt_of_lt p c (Double.representable_of_toRat? divisor) positive small
    obtain ⟨v, value, -⟩ := modulo_of_lt dividend divisor positive fits
    rw [Double.isNaN_of_toRat? value] at nan
    cases nan
  · intro large
    -- The dividend is the last double below `2^1023`, which is smaller than the divisor.
    have dividend : toRat? 8.988465674311579e307 = some ((2 ^ 53 - 1) * 2 ^ (970 : Int)) := by
      decide +kernel
    exact ⟨_, _, dividend, modulo_of_ge dividend divisor positive (sum_ge_of_ge large)⟩

/-- Two finite numbers for which modulo is NaN. -/
theorem modulo_nan_of_finite :
    let dividend : ℚ := 8517715530038134 * 2 ^ (971 : Int)
    let divisor : ℚ := 8768236575039256 * 2 ^ (971 : Int)
    toRat? 1.7e308 = some dividend ∧ toRat? 1.75e308 = some divisor ∧ 0 < divisor ∧
      (VariadicOp.modulo.apply 1.7e308 1.75e308).isNaN = true := by
  decide +kernel

/-- The same divisor takes a negative number into its range and makes a positive one NaN. -/
theorem modulo_of_finite_large_divisor :
    let divisor : ℚ := 8768236575039256 * 2 ^ (971 : Int)
    toRat? 1.75e308 = some divisor ∧ 0 < divisor ∧
      (∃ v, toRat? (VariadicOp.modulo.apply (-1.7e308) 1.75e308) = some v ∧ 0 ≤ v ∧ v < divisor) ∧
      (VariadicOp.modulo.apply 1.7e308 1.75e308).isNaN = true ∧ 2 ^ 1023 ≤ divisor := by
  intro divisor
  have value : toRat? 1.75e308 = some divisor := by decide +kernel
  have positive : 0 < divisor := by decide +kernel
  have negative : toRat? (-1.7e308) = some (-8517715530038134 * 2 ^ (971 : Int)) := by decide +kernel
  have dividend : toRat? 1.7e308 = some (8517715530038134 * 2 ^ (971 : Int)) := by decide +kernel
  obtain ⟨each, some⟩ := modulo_of_finite value positive
  have nan := (each _ _ dividend).2 (by decide +kernel)
  exact ⟨value, positive, (each _ _ negative).1 (by decide +kernel), nan, some.mp ⟨_, _, dividend, nan⟩⟩

end TickGraph
