import Mathlib
import TickGraph.Proofs.DoubleValue

open Float.Model (Format UnpackedFloat totalExponent)
open Float.Model.UnpackedFloat (ExtendedMantissa Sign)

namespace TickGraph.Double

/-- What the first digit behind the mantissa is worth. -/
def halfBit (b : Bool) : ℚ :=
  if b then 1 / 2 else 0

/-- The number that a shortened mantissa stands for. Of the digits that were cut off the first one is
kept, and whether any of the others was set. -/
structure Located (em : ExtendedMantissa) (x : ℚ) : Prop where
  least : em.mantissa + halfBit em.roundBit ≤ x
  most : x < em.mantissa + halfBit em.roundBit + 1 / 2
  exact : em.stickyBit = false ↔ x = em.mantissa + halfBit em.roundBit

/-- An integer with none nearer. Of two it is the even one. -/
structure NearestInteger (k : Nat) (x : ℚ) : Prop where
  near : |(k : ℚ) - x| ≤ 1 / 2
  even : |(k : ℚ) - x| = 1 / 2 → k % 2 = 0

section Shift

variable {em : ExtendedMantissa} {x : ℚ}

theorem Located.of_nat (m : Nat) : Located ⟨m, false, false⟩ m := by
  refine ⟨?_, ?_, ?_⟩ <;> simp [halfBit]

/-- The last digit of the mantissa becomes the digit behind it. -/
theorem halves (em : ExtendedMantissa) :
    (em.shiftRightOne.mantissa : ℚ) + halfBit em.shiftRightOne.roundBit = em.mantissa / 2 := by
  have digits : em.mantissa = 2 * (em.mantissa / 2) + em.mantissa % 2 := (Nat.div_add_mod ..).symm
  have cast : (em.mantissa : ℚ) = 2 * (em.mantissa / 2 : Nat) + (em.mantissa % 2 : Nat) := by
    exact_mod_cast digits
  rcases Nat.mod_two_eq_zero_or_one em.mantissa with last | last
  · rw [last] at cast
    simp only [ExtendedMantissa.shiftRightOne, halfBit, last]
    rw [cast]
    simp
  · rw [last] at cast
    simp only [ExtendedMantissa.shiftRightOne, halfBit, last]
    rw [cast]
    simp
    ring

theorem halfBit_nonneg (b : Bool) : 0 ≤ halfBit b := by
  cases b <;> simp [halfBit]

theorem halfBit_le (b : Bool) : halfBit b ≤ 1 / 2 := by
  cases b <;> simp [halfBit]

theorem Located.shiftRightOne (located : Located em x) : Located em.shiftRightOne (x / 2) := by
  obtain ⟨least, most, exact⟩ := located
  have low := halfBit_nonneg em.roundBit
  have high := halfBit_le em.roundBit
  refine ⟨?_, ?_, ?_⟩
  · rw [halves]
    linarith
  · rw [halves]
    linarith
  · rw [halves]
    change (em.roundBit || em.stickyBit) = false ↔ _
    rw [Bool.or_eq_false_iff, exact]
    constructor
    · rintro ⟨unset, rfl⟩
      rw [unset]
      simp [halfBit]
    · intro same
      have none : halfBit em.roundBit = 0 := by linarith
      refine ⟨?_, by linarith⟩
      cases bit : em.roundBit
      · rfl
      · rw [bit] at none
        norm_num [halfBit] at none

theorem Located.shiftRight (located : Located em x) (n : Nat) : Located (em >>> n) (x / 2 ^ n) := by
  induction n with
  | zero =>
    rw [pow_zero, div_one]
    exact located
  | succ n ih =>
    rw [pow_succ, ← div_div]
    exact ih.shiftRightOne

theorem NearestInteger.of_lt {k : Nat} (near : |(k : ℚ) - x| < 1 / 2) : NearestInteger k x :=
  ⟨near.le, fun tie => absurd tie near.ne⟩

/-- The two bits are enough to find the nearest integer. -/
theorem Located.nearest (located : Located em x) : NearestInteger em.roundedMantissa x := by
  obtain ⟨m, first, rest⟩ := em
  obtain ⟨least, most, exact⟩ := located
  cases first <;> cases rest <;>
    simp only [halfBit, Bool.false_eq_true, if_false, if_true, add_zero] at least most exact
  · have same : x = m := by simpa using exact
    exact NearestInteger.of_lt (by simp [same, ExtendedMantissa.roundedMantissa,
      ExtendedMantissa.accuracy, UnpackedFloat.Accuracy.roundToNearestEven])
  · refine NearestInteger.of_lt ?_
    change |(m : ℚ) - x| < 1 / 2
    rw [abs_lt]
    constructor <;> linarith
  · have tie : x = m + 1 / 2 := by simpa using exact
    have rounded : ExtendedMantissa.roundedMantissa ⟨m, true, false⟩ = m + m % 2 := rfl
    rw [rounded, tie]
    rcases Nat.mod_two_eq_zero_or_one m with last | last
    · refine ⟨?_, fun _ => by omega⟩
      simp [last]
    · refine ⟨?_, fun _ => by omega⟩
      rw [last]
      push_cast
      norm_num
  · have apart : x ≠ m + 1 / 2 := by simpa using exact
    refine NearestInteger.of_lt ?_
    change |((m + 1 : Nat) : ℚ) - x| < 1 / 2
    have above : m + 1 / 2 < x := lt_of_le_of_ne least (Ne.symm apart)
    push_cast
    rw [abs_lt]
    constructor <;> linarith

end Shift

/-- The exponent of the doubles around `m · 2^e`: their mantissas have 53 digits, or the exponent is
the least. -/
def unitExponent (m : Nat) (e : Int) : Int :=
  max (m.log2 + 1 + e - 53) (-1074)

section Unit

variable {m : Nat} {e : Int}

theorem least_le_unitExponent (m : Nat) (e : Int) : -1074 ≤ unitExponent m e :=
  le_max_right _ _

theorem lt_unit (m : Nat) (e : Int) : (m : ℚ) * 2 ^ e < 2 ^ 53 * 2 ^ unitExponent m e := by
  have digits : (m : ℚ) < 2 ^ (m.log2 + 1) := by exact_mod_cast Nat.lt_log2_self
  have exponents : (m.log2 + 1 : Nat) + e ≤ (53 : Nat) + unitExponent m e := by
    have := le_max_left (m.log2 + 1 + e - 53) (-1074)
    unfold unitExponent
    omega
  calc
    (m : ℚ) * 2 ^ e < 2 ^ (m.log2 + 1) * 2 ^ e := mul_lt_mul_of_pos_right digits (two_zpow_pos e)
    _ = 2 ^ ((m.log2 + 1 : Nat) + e) := by rw [zpow_add₀ two_ne_zero, zpow_natCast]
    _ ≤ 2 ^ ((53 : Nat) + unitExponent m e) := zpow_le_zpow_right₀ one_le_two exponents
    _ = 2 ^ 53 * 2 ^ unitExponent m e := by rw [zpow_add₀ two_ne_zero, zpow_natCast]

theorem unit_le (positive : 0 < m) (normal : unitExponent m e ≠ -1074) :
    (2 : ℚ) ^ 52 * 2 ^ unitExponent m e ≤ m * 2 ^ e := by
  have digits : (2 : ℚ) ^ m.log2 ≤ m := by exact_mod_cast Nat.log2_self_le positive.ne'
  have exponents : (52 : Nat) + unitExponent m e = m.log2 + e := by
    unfold unitExponent at normal ⊢
    omega
  calc
    (2 : ℚ) ^ 52 * 2 ^ unitExponent m e = 2 ^ ((52 : Nat) + unitExponent m e) := by
      rw [zpow_add₀ two_ne_zero, zpow_natCast]
    _ = 2 ^ m.log2 * 2 ^ e := by rw [exponents, zpow_add₀ two_ne_zero, zpow_natCast]
    _ ≤ m * 2 ^ e := mul_le_mul_of_nonneg_right digits (two_zpow_pos e).le

theorem log2_shiftLeft (positive : 0 < m) (k : Nat) : (m <<< k).log2 = m.log2 + k := by
  rw [Nat.shiftLeft_eq, Nat.log2_eq_iff (Nat.mul_pos positive (Nat.two_pow_pos k)).ne']
  have below := Nat.log2_self_le positive.ne'
  have above := @Nat.lt_log2_self m
  constructor
  · rw [pow_add]
    exact Nat.mul_le_mul_right _ below
  · rw [Nat.add_right_comm, pow_add]
    exact Nat.mul_lt_mul_of_pos_right above (Nat.two_pow_pos k)

/-- The mantissa is shifted to the left by as much as the exponent is made smaller. -/
theorem decreaseExponent_value (m : Nat) (e t : Int) :
    ((UnpackedFloat.decreaseExponent m e t).1 : ℚ) * 2 ^ (UnpackedFloat.decreaseExponent m e t).2 =
      m * 2 ^ e := by
  unfold UnpackedFloat.decreaseExponent
  dsimp only
  rw [Nat.shiftLeft_eq, Nat.cast_mul, Nat.cast_pow, Nat.cast_ofNat, mul_assoc, ← zpow_natCast,
    ← zpow_add₀ two_ne_zero]
  congr 2
  exact add_sub_cancel _ _

theorem decreaseExponent_exponent (m : Nat) (e t : Int) :
    (UnpackedFloat.decreaseExponent m e t).2 = min e t := by
  unfold UnpackedFloat.decreaseExponent
  dsimp only
  omega

theorem apply_decreaseExponent (sign : Sign) (m : Nat) {e t : Int} (below : t ≤ e) :
    ((sign.apply m : Int) : ℚ) * 2 ^ e =
      (sign.apply (UnpackedFloat.decreaseExponent m e t).1 : Int) * 2 ^ t := by
  have value := decreaseExponent_value m e t
  rw [decreaseExponent_exponent, min_eq_right below] at value
  cases sign <;> simp [Sign.apply, value]

theorem unitExponent_decreaseExponent (positive : 0 < m) (e t : Int) :
    unitExponent (UnpackedFloat.decreaseExponent m e t).1 (UnpackedFloat.decreaseExponent m e t).2 =
      unitExponent m e := by
  unfold unitExponent UnpackedFloat.decreaseExponent
  rw [log2_shiftLeft positive]
  dsimp only
  omega

end Unit

/-- Digits and an exponent as a number, which is zero if no digits are left. -/
def ofDigits (sign : Sign) (k : Nat) (t : Int) : UnpackedFloat :=
  if h : k = 0 then .zero sign else .finite sign k t (Nat.pos_of_ne_zero h)

/-- What rounding makes of the nearest integer in units of `2^t`: if the integer has a digit too many, the last one
is a zero and goes into the exponent. -/
def carried (sign : Sign) (k : Nat) (t : Int) : UnpackedFloat :=
  if k = 2 ^ 53 then ofDigits sign (2 ^ 52) (t + 1) else ofDigits sign k t

section Round

variable {sign : Sign} {m k : Nat} {e t : Int}

theorem shiftToTargetExponent_of_le (inUnits : e ≤ unitExponent m e) :
    UnpackedFloat.shiftToTargetExponent .binary64 m e .exact =
      ((⟨m, false, false⟩ : ExtendedMantissa) >>> (unitExponent m e - e).toNat,
        unitExponent m e) := by
  change (_, e + ((unitExponent m e - e).toNat : Int)) = _
  rw [Prod.mk.injEq]
  exact ⟨rfl, by omega⟩

theorem shiftToTargetExponent_of_ge (done : unitExponent m e ≤ e) :
    UnpackedFloat.shiftToTargetExponent .binary64 m e .exact = (⟨m, false, false⟩, e) := by
  have none : (unitExponent m e - e).toNat = 0 := by omega
  change ((⟨m, false, false⟩ : ExtendedMantissa) >>> (unitExponent m e - e).toNat,
    e + ((unitExponent m e - e).toNat : Int)) = _
  rw [none, Prod.mk.injEq]
  exact ⟨rfl, by omega⟩

/-- The second shift of a rounding drops the last digit of `2^53` and changes nothing else. -/
theorem shiftToTargetExponent_rounded (short : k ≤ 2 ^ 53) (least : -1074 ≤ t) :
    let shifted := UnpackedFloat.shiftToTargetExponent .binary64 k t .exact
    ofDigits sign shifted.1.mantissa shifted.2 = carried sign k t := by
  unfold carried
  by_cases carry : k = 2 ^ 53
  · subst carry
    have unit : unitExponent (2 ^ 53) t = t + 1 := by
      unfold unitExponent
      rw [Nat.log2_two_pow]
      omega
    rw [shiftToTargetExponent_of_le (by omega), if_pos rfl, unit]
    have once : (t + 1 - t).toNat = 1 := by omega
    rw [once]
    rfl
  · have digits : k.log2 ≤ 52 := by
      rcases Nat.eq_zero_or_pos k with rfl | positive
      · decide
      · exact Nat.le_of_lt_succ ((Nat.log2_lt positive.ne').mpr (by omega))
    have unit : unitExponent k t ≤ t := by
      unfold unitExponent
      omega
    rw [shiftToTargetExponent_of_ge unit, if_neg carry]

theorem NearestInteger.le_of_lt {x : ℚ} (nearest : NearestInteger k x) {n : Nat} (below : x < n) :
    k ≤ n := by
  have near := (abs_le.mp nearest.near).2
  have less : (k : ℚ) < n + 1 := by linarith
  exact Nat.le_of_lt_succ (by exact_mod_cast less)

theorem shiftRight_zero (n : Nat) :
    (⟨0, false, false⟩ : ExtendedMantissa) >>> n = ⟨0, false, false⟩ := by
  induction n with
  | zero => rfl
  | succ n ih => exact congrArg ExtendedMantissa.shiftRightOne ih

theorem roundWithAccuracy_eq (sign : Sign) (m : Nat) (e : Int) :
    let first := UnpackedFloat.shiftToTargetExponent .binary64 m e .exact
    let last := UnpackedFloat.shiftToTargetExponent .binary64 first.1.roundedMantissa first.2 .exact
    UnpackedFloat.roundWithAccuracy .binary64 sign m e .exact =
      ofDigits sign last.1.mantissa last.2 := rfl

theorem round_zero (sign : Sign) (e : Int) : UnpackedFloat.round .binary64 sign 0 e = .zero sign := by
  have empty : ∀ f : Int, (UnpackedFloat.shiftToTargetExponent .binary64 0 f .exact).1 =
      ⟨0, false, false⟩ := fun f => shiftRight_zero _
  have unshifted : (UnpackedFloat.decreaseExponent 0 e (unitExponent 0 e)).1 = 0 :=
    Nat.zero_shiftLeft _
  have none : (⟨0, false, false⟩ : ExtendedMantissa).roundedMantissa = 0 := rfl
  change UnpackedFloat.roundWithAccuracy .binary64 sign
    (UnpackedFloat.decreaseExponent 0 e (unitExponent 0 e)).1 _ .exact = _
  rw [unshifted, roundWithAccuracy_eq, empty, none, empty]
  rfl

/-- Rounding finds the nearest integer in units of the last digit. -/
theorem round_eq (sign : Sign) (positive : 0 < m) (e : Int) :
    ∃ k, NearestInteger k (m * 2 ^ e / 2 ^ unitExponent m e) ∧
      UnpackedFloat.round .binary64 sign m e = carried sign k (unitExponent m e) := by
  have least := least_le_unitExponent m e
  have below : (m : ℚ) * 2 ^ e / 2 ^ unitExponent m e < (2 ^ 53 : Nat) := by
    rw [div_lt_iff₀ (two_zpow_pos _)]
    exact_mod_cast lt_unit m e
  have value := decreaseExponent_value m e (unitExponent m e)
  have inUnits := decreaseExponent_exponent m e (unitExponent m e)
  have unit := unitExponent_decreaseExponent positive e (unitExponent m e)
  let first := UnpackedFloat.decreaseExponent m e (unitExponent m e)
  change (first.1 : ℚ) * 2 ^ first.2 = m * 2 ^ e at value
  change first.2 = min e (unitExponent m e) at inUnits
  change unitExponent first.1 first.2 = unitExponent m e at unit
  let shift := (unitExponent m e - first.2).toNat
  have place : (first.1 : ℚ) / 2 ^ shift = m * 2 ^ e / 2 ^ unitExponent m e := by
    have exponent : unitExponent m e = shift + first.2 := by omega
    rw [← value, exponent, zpow_add₀ two_ne_zero, zpow_natCast,
      mul_div_mul_right _ _ (two_zpow_pos _).ne']
  have nearest := ((Located.of_nat first.1).shiftRight shift).nearest
  rw [place] at nearest
  refine ⟨_, nearest, ?_⟩
  rw [← shiftToTargetExponent_rounded (nearest.le_of_lt below) least]
  change UnpackedFloat.roundWithAccuracy .binary64 sign first.1 first.2 .exact = _
  have shifted := @shiftToTargetExponent_of_le first.1 first.2 (by omega)
  rw [unit] at shifted
  rw [roundWithAccuracy_eq, shifted]

end Round

end TickGraph.Double
