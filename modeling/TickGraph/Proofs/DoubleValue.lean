import Mathlib
import TickGraph.Number
import TickGraph.Proofs.WholeNumber

open Float.Model (Format UnpackedFloat)
open Float.Model.UnpackedFloat (Sign)

namespace TickGraph.Double

/-- The mantissas and exponents that doubles have: 53 binary digits, and all of them in use unless the
exponent is the least. -/
structure Canonical (m : Nat) (e : Int) : Prop where
  lt : m < 2 ^ 53
  least : -1074 ≤ e
  full : 2 ^ 52 ≤ m ∨ e = -1074

theorem toNat_append_mantissa (b : BitVec 52) : (1#1 ++ b).toNat = 2 ^ 52 + b.toNat := by
  rw [BitVec.toNat_append, ← Nat.shiftLeft_add_eq_or_of_lt b.isLt]
  rfl

/-- A finite double is unpacked to a mantissa and an exponent of its own. -/
theorem canonical_of_unpack {x : Float} {sign : Sign} {m : Nat} {e : Int} {positive : 0 < m}
    (unpacked : x.toModel.unpack = .finite sign m e positive) : Canonical m e ∧ e ≤ 971 := by
  have same : UnpackedFloat.unpack .binary64 x.toModel.toBits.toBitVec =
      .finite sign m e positive := unpacked
  unfold UnpackedFloat.unpack at same
  extract_lets mantissa exponent shifted signBit s at same
  have short : mantissa.toNat < 2 ^ 52 := mantissa.isLt
  have shift : shifted = exponent.toNat - 1075 := rfl
  split at same
  · split at same <;> cases same
  · rename_i ordinary
    have below : exponent.toNat < 2047 := by
      have bound : exponent.toNat < 2048 := exponent.isLt
      have other : exponent.toNat ≠ 2047 := fun same => ordinary (BitVec.eq_of_toNat_eq same)
      omega
    split at same
    · rename_i zero
      have none : exponent.toNat = 0 := congrArg BitVec.toNat zero
      split at same
      · cases same
      · obtain ⟨-, atMantissa, atExponent⟩ := UnpackedFloat.finite.inj same
        exact ⟨⟨by omega, by omega, Or.inr (by omega)⟩, by omega⟩
    · rename_i nonzero
      have some : exponent.toNat ≠ 0 := fun same => nonzero (BitVec.eq_of_toNat_eq same)
      have digits := toNat_append_mantissa mantissa
      obtain ⟨-, atMantissa, atExponent⟩ := UnpackedFloat.finite.inj same
      exact ⟨⟨by omega, by omega, Or.inl (by omega)⟩, by omega⟩

section Pack

variable {sign : Sign} {m : Nat} {e : Int} {positive : 0 < m}

theorem unpack_ordinary {exponent : BitVec 11} {mantissa : BitVec 52}
    (first : exponent.toNat ≠ 0) (last : exponent.toNat ≠ 2047) :
    UnpackedFloat.unpack .binary64
        (UnpackedFloat.packComponents .binary64 sign exponent mantissa) =
      .finite sign (2 ^ 52 + mantissa.toNat) (exponent.toNat - 1075)
        (Nat.add_pos_left (Nat.two_pow_pos 52) _) := by
  have notLast : exponent ≠ -1#11 := fun same => last (congrArg BitVec.toNat same)
  have notFirst : exponent ≠ 0#11 := fun same => first (congrArg BitVec.toNat same)
  unfold UnpackedFloat.unpack
  simp only [UnpackedFloat.unpackMantissa_packComponents,
    UnpackedFloat.unpackExponent_packComponents, UnpackedFloat.unpackSign_packComponents,
    Sign.ofBitVec_toBitVec, notLast, notFirst, if_false, toNat_append_mantissa]
  rfl

theorem unpack_least {mantissa : BitVec 52} (nonzero : 0 < mantissa.toNat) :
    UnpackedFloat.unpack .binary64 (UnpackedFloat.packComponents .binary64 sign 0#11 mantissa) =
      .finite sign mantissa.toNat (-1074) nonzero := by
  have notLast : (0#11 : BitVec 11) ≠ -1#11 := by decide
  have digits : mantissa ≠ 0#52 := by
    rintro rfl
    cases nonzero
  unfold UnpackedFloat.unpack
  simp only [UnpackedFloat.unpackMantissa_packComponents,
    UnpackedFloat.unpackExponent_packComponents, UnpackedFloat.unpackSign_packComponents,
    Sign.ofBitVec_toBitVec, notLast, digits, if_false, if_true, dite_false]
  rfl

/-- A packed number keeps its exponent in 11 places and its digits behind the first in 52. -/
theorem pack_finite :
    UnpackedFloat.pack .binary64 (.finite sign m e positive) =
      if 2 ^ 11 ≤ (e + 1023 + 52).toNat + 1 then UnpackedFloat.packedInfinity .binary64 sign
      else if m.log2 + 1 = 53 then
        UnpackedFloat.packComponents .binary64 sign (BitVec.ofNat 11 (e + 1023 + 52).toNat)
          (BitVec.ofNat 52 m)
      else UnpackedFloat.packComponents .binary64 sign 0#11 (BitVec.ofNat 52 m) := rfl

/-- What is packed with a canonical mantissa and exponent is unpacked to them again. -/
theorem unpack_pack_finite (canonical : Canonical m e) (inRange : e ≤ 971) :
    UnpackedFloat.unpack .binary64 (UnpackedFloat.pack .binary64 (.finite sign m e positive)) =
      .finite sign m e positive := by
  obtain ⟨lt, least, full⟩ := canonical
  rw [pack_finite, if_neg (by omega)]
  by_cases normal : 2 ^ 52 ≤ m
  · have digits : m.log2 = 52 := (Nat.log2_eq_iff (by omega)).mpr ⟨normal, lt⟩
    have exponent : (BitVec.ofNat 11 (e + 1023 + 52).toNat).toNat = (e + 1023 + 52).toNat := by
      rw [BitVec.toNat_ofNat]
      omega
    have mantissa : 2 ^ 52 + (BitVec.ofNat 52 m).toNat = m := by
      rw [BitVec.toNat_ofNat]
      omega
    rw [if_pos (by omega)]
    refine (unpack_ordinary (by omega) (by omega)).trans ?_
    rw [UnpackedFloat.finite.injEq]
    exact ⟨rfl, mantissa, by omega⟩
  · have digits : m.log2 < 52 := (Nat.log2_lt (by omega)).mpr (by omega)
    have mantissa : (BitVec.ofNat 52 m).toNat = m := by
      rw [BitVec.toNat_ofNat]
      omega
    rw [if_neg (by omega)]
    refine (unpack_least (by omega)).trans ?_
    rw [UnpackedFloat.finite.injEq]
    exact ⟨rfl, mantissa, by omega⟩

/-- A number with a larger exponent than doubles have is packed as an infinity. -/
theorem unpack_pack_infinite (tooLarge : 972 ≤ e) :
    UnpackedFloat.unpack .binary64 (UnpackedFloat.pack .binary64 (.finite sign m e positive)) =
      .infinity sign := by
  rw [pack_finite, if_pos (by omega)]
  cases sign <;> rfl

end Pack

/-- The exact value of an unpacked number. -/
def value? : UnpackedFloat → Option ℚ
  | .zero _ => some 0
  | .finite sign m e _ => some (sign.apply m * 2 ^ e)
  | _ => none

theorem toRat?_eq (x : Float) : toRat? x = value? x.toModel.unpack := rfl

theorem two_zpow_pos (e : Int) : (0 : ℚ) < 2 ^ e :=
  zpow_pos two_pos e

/-- What has an exponent is an integer in units of any smaller power of two. -/
theorem mul_two_zpow_eq (m : Int) {e t : Int} (inUnits : t ≤ e) :
    (m : ℚ) * 2 ^ e = (m * 2 ^ (e - t).toNat : Int) * 2 ^ t := by
  have exponent : e = (e - t).toNat + t := by omega
  rw [Int.cast_mul, Int.cast_pow, Int.cast_ofNat, mul_assoc, ← zpow_natCast,
    ← zpow_add₀ two_ne_zero, ← exponent]

section Order

variable {s t : Sign} {m n : Nat} {e f : Int}

/-- Of two canonical numbers the one with the larger exponent is the larger one. -/
theorem Canonical.lt_of_lt (left : Canonical m e) (right : Canonical n f) (order : e < f) :
    (m : ℚ) * 2 ^ e < n * 2 ^ f := by
  have full : 2 ^ 52 ≤ n := right.full.resolve_right (by have := left.least; omega)
  have digits : (m : ℚ) < 2 ^ 53 := by exact_mod_cast left.lt
  have first : (2 : ℚ) ^ 52 ≤ n := by exact_mod_cast full
  calc
    (m : ℚ) * 2 ^ e < 2 ^ 53 * 2 ^ e := mul_lt_mul_of_pos_right digits (two_zpow_pos e)
    _ = 2 ^ 52 * 2 ^ (e + 1) := by rw [zpow_add_one₀ two_ne_zero]; ring
    _ ≤ 2 ^ 52 * 2 ^ f := by
      have exponents : (2 : ℚ) ^ (e + 1) ≤ 2 ^ f := zpow_le_zpow_right₀ one_le_two (by omega)
      exact mul_le_mul_of_nonneg_left exponents (by positivity)
    _ ≤ n * 2 ^ f := mul_le_mul_of_nonneg_right first (two_zpow_pos f).le

/-- Canonical numbers are compared by their exponents first. -/
theorem Canonical.isLE_compare (left : Canonical m e) (right : Canonical n f) :
    ((compare e f).then (compare m n)).isLE = true ↔ (m : ℚ) * 2 ^ e ≤ n * 2 ^ f := by
  rcases lt_trichotomy e f with less | same | greater
  · rw [compare_lt_iff_lt.mpr less]
    simpa using (left.lt_of_lt right less).le
  · subst same
    rw [compare_eq_iff_eq.mpr rfl, Ordering.eq_then, Nat.isLE_compare]
    rw [mul_le_mul_iff_left₀ (two_zpow_pos e), Nat.cast_le]
  · rw [compare_gt_iff_gt.mpr greater]
    simpa using right.lt_of_lt left greater

/-- The order of signed canonical numbers. Below zero the larger magnitude is the smaller number. -/
theorem Canonical.le_iff (left : Canonical m e) (right : Canonical n f) (nonzero : 0 < m)
    (other : 0 < n) :
    (UnpackedFloat.finite s m e nonzero).le (.finite t n f other) = true ↔
      ((s.apply m : Int) : ℚ) * 2 ^ e ≤ (t.apply n : Int) * 2 ^ f := by
  have above : (0 : ℚ) < m * 2 ^ e := mul_pos (Nat.cast_pos.mpr nonzero) (two_zpow_pos e)
  have beyond : (0 : ℚ) < n * 2 ^ f := mul_pos (Nat.cast_pos.mpr other) (two_zpow_pos f)
  have swapped : ((compare e f).then (compare m n)).swap = (compare f e).then (compare n m) := by
    rw [Ordering.swap_then, ← Std.OrientedOrd.eq_swap, ← Std.OrientedOrd.eq_swap]
  simp only [UnpackedFloat.le]
  cases s <;> cases t <;>
    simp only [UnpackedFloat.compare, Option.any_some, Sign.apply, Int.cast_neg, Int.cast_natCast,
      neg_mul]
  · rw [swapped, right.isLE_compare left, neg_le_neg_iff]
  · exact iff_of_true rfl (by linarith)
  · exact iff_of_false Bool.false_ne_true (by linarith)
  · exact left.isLE_compare right

end Order

/-- A double with an exact value is a zero, or a sign and a canonical number. -/
theorem exists_finite {x : Float} {q : ℚ} (value : toRat? x = some q) :
    (q = 0 ∧ ∃ sign, x.toModel.unpack = .zero sign) ∨
      ∃ sign m e positive, x.toModel.unpack = .finite sign m e positive ∧ Canonical m e ∧
        e ≤ 971 ∧ q = sign.apply m * 2 ^ e := by
  rw [toRat?_eq] at value
  cases unpacked : x.toModel.unpack with
  | infinity sign => rw [unpacked] at value; cases value
  | notANumber => rw [unpacked] at value; cases value
  | zero sign =>
    rw [unpacked] at value
    exact Or.inl ⟨(Option.some.inj value).symm, sign, rfl⟩
  | finite sign m e positive =>
    rw [unpacked] at value
    obtain ⟨canonical, top⟩ := canonical_of_unpack unpacked
    exact Or.inr ⟨sign, m, e, positive, rfl, canonical, top, (Option.some.inj value).symm⟩

/-- Doubles with an exact value are ordered as their values are. -/
theorem le_iff {x y : Float} {p q : ℚ} (left : toRat? x = some p) (right : toRat? y = some q) :
    x ≤ y ↔ p ≤ q := by
  have order : x ≤ y ↔ x.toModel.unpack.le y.toModel.unpack = true := by
    change decide _ = true ↔ _
    rw [decide_eq_true_iff]
    rfl
  rw [order]
  obtain ⟨rfl, s, first⟩ | ⟨s, m, e, nonzero, first, one, -, rfl⟩ := exists_finite left
  · obtain ⟨rfl, t, second⟩ | ⟨t, n, f, other, second, -, -, rfl⟩ := exists_finite right
    · simp [first, second, UnpackedFloat.le, UnpackedFloat.compare]
    · have above : (0 : ℚ) < n * 2 ^ f := mul_pos (Nat.cast_pos.mpr other) (two_zpow_pos f)
      rw [first, second]
      cases t <;> simp [UnpackedFloat.le, UnpackedFloat.compare, Sign.apply, above, above.le]
  · obtain ⟨rfl, t, second⟩ | ⟨t, n, f, other, second, two, -, rfl⟩ := exists_finite right
    · have above : (0 : ℚ) < m * 2 ^ e := mul_pos (Nat.cast_pos.mpr nonzero) (two_zpow_pos e)
      rw [first, second]
      cases s <;> simp [UnpackedFloat.le, UnpackedFloat.compare, Sign.apply, above, above.le]
    · rw [first, second]
      exact one.le_iff two nonzero other

/-- The end of the range is half a unit behind the largest mantissa. -/
theorem cast_doubleLimit : (Number.doubleLimit : ℚ) = (2 ^ 53 - 1 / 2) * 2 ^ (971 : Int) := by
  decide +kernel

theorem cast_doubleLimit_half : (Number.doubleLimit : ℚ) = (2 ^ 54 - 1) * 2 ^ (970 : Int) := by
  decide +kernel

/-- The rational numbers that doubles are: a mantissa of 53 binary digits, scaled by a power of two,
below the end of the range. -/
structure Representable (q : ℚ) : Prop where
  digits : ∃ m e : ℤ, |m| < 2 ^ 53 ∧ -1074 ≤ e ∧ q = m * 2 ^ e
  inRange : |q| < 2 ^ 1024

/-- Signs and canonical numbers below the end of the range are represented. -/
theorem Canonical.representable {m : Nat} {e : Int} (canonical : Canonical m e) (top : e ≤ 971)
    (sign : Sign) : Representable ((sign.apply m : Int) * 2 ^ e) := by
  have size : |sign.apply m| = m := by cases sign <;> simp [Sign.apply]
  have short : (m : ℚ) < 2 ^ 53 := by exact_mod_cast canonical.lt
  refine ⟨⟨sign.apply m, e, ?_, canonical.least, rfl⟩, ?_⟩
  · rw [size]
    exact_mod_cast canonical.lt
  · rw [abs_mul, ← Int.cast_abs, size, abs_of_pos (two_zpow_pos e), Int.cast_natCast]
    calc
      (m : ℚ) * 2 ^ e < 2 ^ 53 * 2 ^ e := mul_lt_mul_of_pos_right short (two_zpow_pos e)
      _ ≤ 2 ^ 53 * 2 ^ (971 : Int) := by
        have exponents : (2 : ℚ) ^ e ≤ 2 ^ (971 : Int) := zpow_le_zpow_right₀ one_le_two top
        exact mul_le_mul_of_nonneg_left exponents (by positivity)
      _ = 2 ^ 1024 := by decide +kernel

namespace Representable

variable {q : ℚ}

theorem neg (representable : Representable q) : Representable (-q) := by
  obtain ⟨⟨m, e, short, least, rfl⟩, inRange⟩ := representable
  refine ⟨⟨-m, e, by rwa [abs_neg], least, ?_⟩, by rwa [abs_neg]⟩
  push_cast
  ring

/-- Integers of 53 binary digits are represented. -/
theorem of_int {n : ℤ} (short : |n| ≤ 2 ^ 53) : Representable n := by
  have size : |(n : ℚ)| ≤ 2 ^ 53 := by exact_mod_cast short
  refine ⟨?_, size.trans_lt (pow_lt_pow_right₀ one_lt_two (by norm_num))⟩
  rcases short.lt_or_eq with less | same
  · exact ⟨n, 0, less, by norm_num, by simp⟩
  · obtain rfl | rfl := (abs_eq (by norm_num)).mp same
    · exact ⟨1, 53, by norm_num, by norm_num, by norm_num⟩
    · exact ⟨-1, 53, by norm_num, by norm_num, by norm_num⟩

theorem zero : Representable 0 :=
  mod_cast of_int (n := 0) (by norm_num)

/-- The last number before a power of two has the largest mantissa. -/
theorem le_of_lt (representable : Representable q) {t : ℤ} (below : |q| < 2 ^ 53 * 2 ^ t) :
    |q| ≤ (2 ^ 53 - 1) * 2 ^ t := by
  obtain ⟨⟨m, e, short, -, rfl⟩, -⟩ := representable
  rw [abs_mul, abs_of_pos (two_zpow_pos e), ← Int.cast_abs] at below ⊢
  have unit := two_zpow_pos t
  have most : ∃ j : ℤ, j < 2 ^ 53 ∧ ((|m| : ℤ) : ℚ) * 2 ^ e ≤ j * 2 ^ t := by
    by_cases inUnits : t ≤ e
    · have multiple := mul_two_zpow_eq |m| inUnits
      rw [multiple, mul_lt_mul_iff_left₀ unit] at below
      exact ⟨_, by exact_mod_cast below, multiple.le⟩
    · have exponents : (2 : ℚ) ^ e ≤ 2 ^ t := zpow_le_zpow_right₀ one_le_two (by omega)
      exact ⟨|m|, short, mul_le_mul_of_nonneg_left exponents (Int.cast_nonneg (abs_nonneg m))⟩
  obtain ⟨j, digits, bound⟩ := most
  have size : (j : ℚ) + 1 ≤ 2 ^ 53 := by exact_mod_cast digits
  refine bound.trans (mul_le_mul_of_nonneg_right ?_ unit.le)
  linarith

theorem lt_doubleLimit (representable : Representable q) : |q| < Number.doubleLimit := by
  have range : (2 : ℚ) ^ 1024 = 2 ^ 53 * 2 ^ (971 : Int) := by decide +kernel
  have below := representable.inRange
  rw [range] at below
  rw [cast_doubleLimit]
  refine (representable.le_of_lt below).trans_lt (mul_lt_mul_of_pos_right ?_ (two_zpow_pos 971))
  norm_num

end Representable

theorem representable_of_toRat? {x : Float} {q : ℚ} (value : toRat? x = some q) :
    Representable q := by
  obtain ⟨rfl, -⟩ | ⟨sign, m, e, -, -, canonical, top, rfl⟩ := exists_finite value
  · exact Representable.zero
  · exact canonical.representable top sign

end TickGraph.Double
