import Mathlib.Algebra.Order.Field.Rat
import Mathlib.Data.Rat.Cast.Order
import Mathlib.Data.Rat.Floor
import Mathlib.Tactic.FieldSimp
import Mathlib.Tactic.Linarith
import TickGraph.Double

open Float.Model (UnpackedFloat)
open Float.Model.UnpackedFloat (Sign)

namespace TickGraph.Double

/-- The exact value of a double. Infinities and NaN have none. -/
def toRat? (x : Float) : Option ℚ :=
  match x.toModel.unpack with
  | .zero _ => some 0
  | .finite sign m e _ => some (sign.apply m * 2 ^ e)
  | _ => none

theorem scale_pos (e : Int) : 0 < scale 2 e :=
  Nat.two_pow_pos e.toNat

theorem scale_ne_zero (e : Int) : (scale 2 e : ℚ) ≠ 0 :=
  Nat.cast_ne_zero.mpr (scale_pos e).ne'

/-- Multiplying by a power of two is multiplying by one natural number and dividing by another. -/
theorem mul_two_zpow (q : ℚ) (e : Int) : q * 2 ^ e = q * scale 2 e / scale 2 (-e) := by
  unfold scale
  obtain ⟨k, rfl | rfl⟩ := e.eq_nat_or_neg
  · simp
  · simp [div_eq_mul_inv]

theorem isWhole_iff (m : Nat) (e : Int) :
    isWhole m e = true ↔ scale 2 (-e) ∣ m * scale 2 e := by
  unfold isWhole
  rw [beq_iff_eq, Nat.dvd_iff_mod_eq_zero]

theorem mul_zpow_of_whole {m : Nat} {e : Int} (whole : isWhole m e = true) :
    (m : ℚ) * 2 ^ e = wholePart m e := by
  obtain ⟨k, multiple⟩ := (isWhole_iff m e).mp whole
  have quotient : wholePart m e = k := by
    unfold wholePart
    rw [multiple, Nat.mul_div_cancel_left k (scale_pos (-e))]
  have product : (m : ℚ) * scale 2 e = scale 2 (-e) * k := by exact_mod_cast multiple
  rw [mul_two_zpow, product, quotient, mul_div_cancel_left₀ _ (scale_ne_zero (-e))]

theorem whole_of_mul_zpow {m : Nat} {e n : Int} (same : (m : ℚ) * 2 ^ e = n) :
    isWhole m e = true := by
  rw [mul_two_zpow, div_eq_iff (scale_ne_zero (-e))] at same
  have product : (m * scale 2 e : Int) = n * scale 2 (-e) := by exact_mod_cast same
  rw [isWhole_iff, ← Int.natCast_dvd_natCast]
  exact ⟨n, by push_cast; rw [product, Int.mul_comm]⟩

theorem apply_mul_zpow {m : Nat} {e : Int} (sign : Sign) (whole : isWhole m e = true) :
    ((sign.apply m : Int) : ℚ) * 2 ^ e = (sign.apply (wholePart m e) : Int) := by
  have found := mul_zpow_of_whole whole
  cases sign <;> simp [Sign.apply, found]

theorem whole_of_apply_mul {m : Nat} {e n : Int} {sign : Sign}
    (same : ((sign.apply m : Int) : ℚ) * 2 ^ e = n) : isWhole m e = true := by
  cases sign with
  | positive => exact whole_of_mul_zpow (by simpa [Sign.apply] using same)
  | negative =>
    refine whole_of_mul_zpow (n := -n) ?_
    rw [Int.cast_neg, ← same]
    simp [Sign.apply]

/-- The integer that is found in a double is its exact value, and it is found whenever there is one. -/
theorem toInt?_eq_some_iff (x : Float) (n : Int) : toInt? x = some n ↔ toRat? x = some (n : ℚ) := by
  unfold toInt? toRat?
  cases x.toModel.unpack with
  | infinity sign => simp
  | notANumber => simp
  | zero sign => simp [eq_comm]
  | finite sign m e positive =>
    by_cases whole : isWhole m e = true
    · simp [whole, apply_mul_zpow sign whole]
    · simp only [whole, Bool.false_eq_true, if_false, reduceCtorEq, Option.some.injEq, false_iff]
      intro same
      exact whole (whole_of_apply_mul same)

theorem floor_mul_zpow (m : Nat) (e : Int) : ⌊(m : ℚ) * 2 ^ e⌋ = wholePart m e := by
  rw [mul_two_zpow, ← Nat.cast_mul, Rat.floor_natCast_div_natCast]
  rfl

/-- A number without its fraction. -/
def towardZero (q : ℚ) : Int :=
  if 0 ≤ q then ⌊q⌋ else ⌈q⌉

/-- A finite double loses its fraction, and no other one has an integer part. -/
theorem truncate_eq_ok_iff {x : Float} {n : Int} :
    truncate x = .ok n ↔ ∃ q, toRat? x = some q ∧ n = towardZero q := by
  unfold truncate toRat?
  cases x.toModel.unpack with
  | infinity sign => simp
  | notANumber => simp
  | zero sign => simp [towardZero, eq_comm]
  | finite sign m e positive =>
    have above : (0 : ℚ) < m * 2 ^ e := mul_pos (Nat.cast_pos.mpr positive) (zpow_pos two_pos e)
    have part : towardZero (sign.apply m * 2 ^ e) = sign.apply (wholePart m e) := by
      cases sign with
      | positive => simp [Sign.apply, towardZero, above.le, floor_mul_zpow]
      | negative => simp [Sign.apply, towardZero, above, floor_mul_zpow, Int.ceil_neg]
    simp [part, eq_comm]

end TickGraph.Double
