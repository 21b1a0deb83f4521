import Mathlib
import TickGraph.Operator.Value
import TickGraph.Proofs.Rounding

open Float.Model.UnpackedFloat (Sign)

namespace TickGraph

namespace Double

/-- The digits that a number has behind the point. -/
theorem Representable.fraction {q : ℚ} (representable : Representable q) (fractional : Int.fract q ≠ 0) :
    ∃ (m : ℤ) (k : ℕ), |m| < 2 ^ 53 ∧ 0 < k ∧ k ≤ 1074 ∧ q = m / (2 ^ k : ℕ) ∧
      Int.fract q = (m % (2 ^ k : ℕ) : ℤ) / (2 ^ k : ℕ) := by
  obtain ⟨⟨m, e, short, least, rfl⟩, -⟩ := representable
  have negative : e < 0 := by
    by_contra! nonneg
    obtain ⟨n, rfl⟩ := Int.eq_ofNat_of_zero_le nonneg
    have whole : (m : ℚ) * 2 ^ (n : ℤ) = (m * 2 ^ n : ℤ) := by
      push_cast
      rfl
    exact fractional (whole ▸ Int.fract_intCast _)
  obtain ⟨k, rfl⟩ := Int.exists_eq_neg_ofNat negative.le
  have quotient : (m : ℚ) * 2 ^ (-(k : ℤ)) = m / (2 ^ k : ℕ) := by
    rw [zpow_neg, zpow_natCast, Nat.cast_pow, Nat.cast_ofNat, div_eq_mul_inv]
  refine ⟨m, k, short, by omega, by omega, quotient, ?_⟩
  rw [quotient, Int.fract_div_intCast_eq_div_intCast_mod]

/-- A fraction below one half has no more digits than the number. For a number above zero its digits are
among those of the number. A number below zero is taken from the next smaller integer; if it is
near zero the fraction is large. -/
theorem Representable.fract_of_lt {q : ℚ} (representable : Representable q)
    (small : Int.fract q < 1 / 2) : Representable (Int.fract q) := by
  by_cases whole : Int.fract q = 0
  · rw [whole]
    exact Representable.zero
  obtain ⟨m, k, short, -, least, -, fraction⟩ := representable.fraction whole
  have unit : (0 : ℚ) < (2 ^ k : ℕ) := by positivity
  have positive : (0 : ℤ) < (2 ^ k : ℕ) := by positivity
  have nonneg := Int.emod_nonneg m positive.ne'
  have below : 2 * (m % (2 ^ k : ℕ)) < (2 ^ k : ℕ) := by
    rw [fraction, div_lt_iff₀ unit] at small
    have twice : ((2 * (m % (2 ^ k : ℕ)) : ℤ) : ℚ) < (2 ^ k : ℕ) := by
      push_cast at small ⊢
      linarith
    exact_mod_cast twice
  have digits : m % (2 ^ k : ℕ) < 2 ^ 53 := by
    rcases lt_or_ge m 0 with negative | above
    · -- With more digits behind the point the number is so near to zero that the fraction is large.
      by_cases many : k ≤ 54
      · have bound : (2 ^ k : ℕ) ≤ 2 ^ 54 := Nat.pow_le_pow_right (by norm_num) many
        omega
      · have bound : 2 ^ 55 ≤ (2 ^ k : ℕ) := Nat.pow_le_pow_right (by norm_num) (by omega)
        have next : m % (2 ^ k : ℕ) = m + (2 ^ k : ℕ) := by
          have least := (abs_lt.mp short).1
          rw [← Int.add_emod_right, Int.emod_eq_of_lt (by omega) (by omega)]
        have least := (abs_lt.mp short).1
        omega
    · have division := Int.emod_add_mul_ediv m (2 ^ k : ℕ)
      have quotient := mul_nonneg positive.le (Int.ediv_nonneg above positive.le)
      linarith [(abs_lt.mp short).2]
  refine ⟨⟨m % (2 ^ k : ℕ), -k, ?_, by omega, ?_⟩, ?_⟩
  · rwa [abs_of_nonneg nonneg]
  · rw [fraction, zpow_neg, zpow_natCast, div_eq_mul_inv]
    push_cast
    rfl
  · rw [abs_of_nonneg (Int.fract_nonneg q)]
    exact (Int.fract_lt_one q).trans (one_lt_pow₀ one_lt_two (by norm_num))

/-- A number with digits behind the point is not large. -/
theorem Representable.floor_bounds {q : ℚ} (representable : Representable q)
    (fractional : Int.fract q ≠ 0) : -2 ^ 52 ≤ ⌊q⌋ ∧ ⌊q⌋ < 2 ^ 52 := by
  obtain ⟨m, k, short, digits, -, quotient, -⟩ := representable.fraction fractional
  have two : 2 ≤ (2 ^ k : ℕ) := Nat.le_self_pow digits.ne' 2
  have unit : (2 : ℚ) ≤ (2 ^ k : ℕ) := by exact_mod_cast two
  obtain ⟨lower, upper⟩ := abs_lt.mp short
  have least : -(2 : ℚ) ^ 53 < m := by exact_mod_cast lower
  have most : (m : ℚ) < 2 ^ 53 := by exact_mod_cast upper
  rw [Int.le_floor, Int.floor_lt, quotient, le_div_iff₀ (by linarith), div_lt_iff₀ (by linarith)]
  push_cast at unit ⊢
  constructor
  · linarith
  · linarith

theorem Representable.floor {q : ℚ} (representable : Representable q) :
    Representable (⌊q⌋ : ℤ) := by
  by_cases whole : Int.fract q = 0
  · have itself : ((⌊q⌋ : ℤ) : ℚ) = q := by linarith [Int.floor_add_fract q]
    rwa [itself]
  · obtain ⟨least, most⟩ := representable.floor_bounds whole
    exact Representable.of_int (abs_le.mpr ⟨by omega, by omega⟩)

/-- The integer after a number with digits behind the point is represented. -/
theorem Representable.floor_add_one {q : ℚ} (representable : Representable q)
    (fractional : Int.fract q ≠ 0) : Representable ((⌊q⌋ : ℤ) + 1) := by
  obtain ⟨least, most⟩ := representable.floor_bounds fractional
  have next := @Representable.of_int (⌊q⌋ + 1) (abs_le.mpr ⟨by omega, by omega⟩)
  rwa [Int.cast_add, Int.cast_one] at next

end Double

theorem floor_add_half (q : ℚ) : ⌊q + 1 / 2⌋ = if 1 / 2 ≤ Int.fract q then ⌊q⌋ + 1 else ⌊q⌋ := by
  have whole := Int.floor_add_fract q
  have least := Int.fract_nonneg q
  have less := Int.fract_lt_one q
  split
  · rw [Int.floor_eq_iff]
    push_cast
    constructor <;> linarith
  · rw [Int.floor_eq_iff]
    constructor <;> linarith

/-- Rational numbers whose sums and differences are rounded. -/
structure RoundedRat (rounding : ℚ → ℚ) where
  value : ℚ

namespace RoundedRat

variable {rounding : ℚ → ℚ}

instance : Add (RoundedRat rounding) :=
  ⟨fun x y => ⟨rounding (x.value + y.value)⟩⟩

instance : Sub (RoundedRat rounding) :=
  ⟨fun x y => ⟨rounding (x.value - y.value)⟩⟩

instance : OfScientific (RoundedRat rounding) :=
  ⟨fun m negative e => ⟨OfScientific.ofScientific m negative e⟩⟩

instance : One (RoundedRat rounding) :=
  ⟨⟨1⟩⟩

instance : LE (RoundedRat rounding) :=
  ⟨fun x y => x.value ≤ y.value⟩

instance : DecidableLE (RoundedRat rounding) :=
  fun x y => inferInstanceAs (Decidable (x.value ≤ y.value))

instance : Floor (RoundedRat rounding) :=
  ⟨fun x => ⟨(⌊x.value⌋ : ℤ)⟩⟩

theorem value_half : (0.5 : RoundedRat rounding).value = 1 / 2 := by
  change (0.5 : ℚ) = 1 / 2
  norm_num

theorem value_roundHalfUp (q : ℚ) :
    (roundHalfUp (⟨q⟩ : RoundedRat rounding)).value =
      if 1 / 2 ≤ rounding (Int.fract q) then rounding ((⌊q⌋ : ℤ) + 1) else (⌊q⌋ : ℤ) := by
  change (if (0.5 : RoundedRat rounding).value ≤ rounding (q - (⌊q⌋ : ℤ)) then _ else _ :
    RoundedRat rounding).value = _
  rw [value_half]
  change (if 1 / 2 ≤ rounding (Int.fract q) then _ else _ : RoundedRat rounding).value = _
  split
  · rfl
  · rfl

end RoundedRat

open Double (Representable NearestDouble toRat? Rounded)

theorem representable_half : Representable (1 / 2) := by
  refine ⟨⟨1, -1, by norm_num, by norm_num, by norm_num⟩, ?_⟩
  rw [abs_of_pos (by norm_num)]
  exact (by norm_num : (1 / 2 : ℚ) < 1).trans (one_lt_pow₀ one_lt_two (by norm_num))

theorem toRat?_half : toRat? 0.5 = some (1 / 2) := by
  decide +kernel

/-- A rounded fraction lies on the same side of one half as the exact one, if rounding keeps what is
represented and does not go past one half. -/
theorem half_le_iff {q v : ℚ} (representable : Representable q)
    (fixed : Representable (Int.fract q) → v = Int.fract q)
    (kept : 1 / 2 ≤ Int.fract q → 1 / 2 ≤ v) : 1 / 2 ≤ v ↔ 1 / 2 ≤ Int.fract q := by
  refine ⟨fun above => ?_, kept⟩
  by_contra! small
  rw [fixed (representable.fract_of_lt small)] at above
  exact absurd above (not_le.mpr small)

theorem NearestDouble.half_le_iff {q v : ℚ} (representable : Representable q)
    (nearest : NearestDouble (Int.fract q) v) : 1 / 2 ≤ v ↔ 1 / 2 ≤ Int.fract q :=
  TickGraph.half_le_iff representable nearest.eq_of_representable
    (nearest.le_of_le representable_half)

section Monotone

variable {rounding : ℚ → ℚ} (monotone : Monotone rounding)
  (fixes : ∀ w, Representable w → rounding w = w) {q : ℚ} (representable : Representable q)

include monotone fixes representable

theorem half_le_rounding_iff : 1 / 2 ≤ rounding (Int.fract q) ↔ 1 / 2 ≤ Int.fract q := by
  refine half_le_iff representable (fixes _) fun large => ?_
  rw [← fixes _ representable_half]
  exact monotone large

end Monotone

namespace Double

/-- Below zero the integer part is cut off toward zero, so the floor is one less. -/
theorem floor_neg_mul_zpow {m : Nat} {e : Int} (fractional : ¬ isWhole m e = true) :
    ⌊-((m : ℚ) * 2 ^ e)⌋ = -(wholePart m e + 1 : Int) := by
  have part := floor_mul_zpow m e
  obtain ⟨least, less⟩ := Int.floor_eq_iff.mp part
  have apart : ((wholePart m e : Int) : ℚ) ≠ m * 2 ^ e := fun same =>
    fractional (whole_of_mul_zpow same.symm)
  have above := lt_of_le_of_ne least apart
  rw [Int.floor_eq_iff]
  push_cast at *
  constructor <;> linarith

theorem toRat?_ofScaled_zero {sign : Sign} {n : Nat} {k : Int} (same : sign.apply n = k)
    (representable : Representable k) : toRat? (ofScaled sign n 0) = some (k : ℚ) := by
  have rounded := rounded_ofScaled sign n 0
  rw [zpow_zero, mul_one, same] at rounded
  exact rounded.value_eq representable

theorem toRat?_floor {x : Float} {q : ℚ} (value : toRat? x = some q) :
    toRat? (floor x) = some ((⌊q⌋ : ℤ) : ℚ) := by
  have representable := (representable_of_toRat? value).floor
  obtain ⟨rfl, s, unpacked⟩ | ⟨s, m, e, positive, unpacked, -, -, rfl⟩ := exists_finite value
  · have itself : floor x = x := by
      unfold floor
      rw [unpacked]
    rw [itself, value, Int.floor_zero, Int.cast_zero]
  · unfold floor
    rw [unpacked]
    by_cases whole : isWhole m e = true
    · simp only [whole, if_true]
      rw [value, apply_mul_zpow s whole, Int.floor_intCast]
    · simp only [whole, Bool.false_eq_true, if_false]
      cases s with
      | positive =>
        refine toRat?_ofScaled_zero ?_ representable
        exact (floor_mul_zpow m e).symm
      | negative =>
        refine toRat?_ofScaled_zero ?_ representable
        simp only [Sign.apply, Int.cast_neg, Int.cast_natCast, neg_mul]
        rw [floor_neg_mul_zpow whole]
        push_cast
        rfl

/-- The double that comes from rounding a finite one is the exact integer. -/
theorem toRat?_round {x : Float} {q : ℚ} (value : toRat? x = some q) :
    toRat? (UnaryOp.round.apply x) = some ((⌊q + 1 / 2⌋ : ℤ) : ℚ) := by
  have representable := representable_of_toRat? value
  have whole := toRat?_floor value
  have least := Int.fract_nonneg q
  have less := Int.fract_lt_one q
  have difference : Rounded (Int.fract q) (x - floor x).toModel.unpack := rounded_sub value whole
  have inRange : |Int.fract q| < Number.doubleLimit := by
    have one := (@Representable.of_int 1 (by norm_num)).lt_doubleLimit
    rw [Int.cast_one, abs_one] at one
    rw [abs_of_nonneg least]
    exact less.trans one
  obtain ⟨v, decides, nearest⟩ := difference.inRange inRange
  have order : 0.5 ≤ x - floor x ↔ 1 / 2 ≤ Int.fract q :=
    (le_iff toRat?_half decides).trans (NearestDouble.half_le_iff representable nearest)
  change toRat? (if 0.5 ≤ x - floor x then floor x + 1 else floor x) = _
  rw [floor_add_half]
  by_cases above : 1 / 2 ≤ Int.fract q
  · have fractional : Int.fract q ≠ 0 := by linarith
    have one : toRat? 1 = some 1 := by decide +kernel
    rw [if_pos (order.mpr above), if_pos above]
    have next := (rounded_add whole one).value_eq (representable.floor_add_one fractional)
    rwa [Int.cast_add, Int.cast_one]
  · rw [if_neg (mt order.mp above), if_neg above]
    exact whole

end Double

/-- Rounding to the nearest integer is exact, with ties going up, though the difference that decides it and
the last sum are rounded. This holds for any monotone rounding that keeps the numbers which doubles
represent: the rounded difference is on the same side of one half as the exact one, and where one is added
the sum is represented. So it holds for doubles. -/
theorem roundHalfUp_exact {rounding : ℚ → ℚ} (monotone : Monotone rounding)
    (fixes : ∀ w, Representable w → rounding w = w) {q : ℚ} (representable : Representable q) :
    (roundHalfUp (⟨q⟩ : RoundedRat rounding)).value = (⌊q + 1 / 2⌋ : ℤ) ∧
      (1 / 2 ≤ rounding (q - (⌊q⌋ : ℤ)) ↔ 1 / 2 ≤ q - (⌊q⌋ : ℤ)) ∧
      (1 / 2 ≤ q - (⌊q⌋ : ℤ) → rounding ((⌊q⌋ : ℤ) + 1) = (⌊q⌋ : ℤ) + 1) ∧
      (∃ x, toRat? x = some q) ∧
      ∀ x, toRat? x = some q →
        toRat? (UnaryOp.round.apply x) = some ((⌊q + 1 / 2⌋ : ℤ) : ℚ) := by
  have order := half_le_rounding_iff monotone fixes representable
  have next : 1 / 2 ≤ Int.fract q → rounding ((⌊q⌋ : ℤ) + 1) = (⌊q⌋ : ℤ) + 1 := fun above =>
    fixes _ (representable.floor_add_one (by linarith))
  refine ⟨?_, order, next, (Double.representable_iff q).mp representable, fun _ => Double.toRat?_round⟩
  rw [RoundedRat.value_roundHalfUp, floor_add_half]
  by_cases above : 1 / 2 ≤ Int.fract q
  · rw [if_pos (order.mpr above), if_pos above, next above, Int.cast_add, Int.cast_one]
  · rw [if_neg (mt order.mp above), if_neg above]

/-- Drops the binary digits from number `n` behind the point on. -/
def dropDigits (n : Nat) (q : ℚ) : ℚ :=
  (⌊q * 2 ^ n⌋ : ℤ) / 2 ^ n

theorem dropDigits_monotone (n : Nat) : Monotone (dropDigits n) := by
  intro q w below
  unfold dropDigits
  have unit : (0 : ℚ) ≤ 2 ^ n := by positivity
  have digits := Int.floor_mono (mul_le_mul_of_nonneg_right below unit)
  exact div_le_div_of_nonneg_right (by exact_mod_cast digits) unit

/-- Doubles have no digits after the one with number 1074. -/
theorem dropDigits_of_representable {w : ℚ} (representable : Representable w) :
    dropDigits 1074 w = w := by
  obtain ⟨m, e, -, least, rfl⟩ := representable.digits
  obtain ⟨n, digits⟩ := Int.eq_ofNat_of_zero_le (by omega : 0 ≤ e + (1074 : Nat))
  have whole : (m : ℚ) * 2 ^ e * 2 ^ 1074 = (m * 2 ^ n : ℤ) := by
    rw [mul_assoc, ← zpow_natCast, ← zpow_add₀ two_ne_zero, digits]
    push_cast
    rw [zpow_natCast]
  unfold dropDigits
  rw [whole, Int.floor_intCast, ← whole, mul_div_assoc, div_self (by positivity), mul_one]

/-- The largest double below one half is rounded to zero. One half added to it would be rounded to one. -/
theorem roundHalfUp_exact_below_half :
    let q : ℚ := 1 / 2 - 1 / 2 ^ 54
    (roundHalfUp (⟨q⟩ : RoundedRat (dropDigits 1074))).value = 0 ∧
      toRat? (UnaryOp.round.apply 0.49999999999999994) = some 0 := by
  intro q
  have value : toRat? 0.49999999999999994 = some q := by decide +kernel
  have whole : ⌊q + 1 / 2⌋ = 0 := by
    rw [Int.floor_eq_zero_iff]
    constructor <;> norm_num [q]
  obtain ⟨exact, -, -, -, doubles⟩ := roundHalfUp_exact (dropDigits_monotone 1074)
    (fun _ => dropDigits_of_representable) (Double.representable_of_toRat? value)
  have rounded := doubles _ value
  rw [whole, Int.cast_zero] at exact rounded
  exact ⟨exact, rounded⟩

end TickGraph
