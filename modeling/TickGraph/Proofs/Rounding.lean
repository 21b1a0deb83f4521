import TickGraph.Proofs.NearestInteger

open Float.Model (UnpackedFloat)
open Float.Model.UnpackedFloat (Sign)

namespace TickGraph.Double

/-- A double's value than which no double's value is nearer to `q`. -/
structure NearestDouble (q v : ℚ) : Prop where
  representable : Representable v
  nearest : ∀ w, Representable w → |v - q| ≤ |w - q|

namespace NearestDouble

variable {q v w : ℚ}

theorem neg (nearest : NearestDouble q v) : NearestDouble (-q) (-v) := by
  refine ⟨nearest.representable.neg, fun w representable => ?_⟩
  have near := nearest.nearest (-w) representable.neg
  rwa [show -v - -q = -(v - q) by ring, show w - -q = -(-w - q) by ring, abs_neg, abs_neg]

/-- What is represented is not rounded. -/
theorem eq_of_representable (nearest : NearestDouble q v) (representable : Representable q) :
    v = q := by
  have near := nearest.nearest q representable
  rw [sub_self, abs_zero] at near
  exact sub_eq_zero.mp (abs_nonpos_iff.mp near)

/-- Rounding does not go past a double. -/
theorem le_of_le (nearest : NearestDouble q v) (representable : Representable w) (below : w ≤ q) :
    w ≤ v := by
  have near := nearest.nearest w representable
  by_contra! past
  rw [abs_of_nonpos (by linarith), abs_of_nonpos (by linarith)] at near
  linarith

end NearestDouble

section Nearest

variable {k : Nat} {t : Int} {q : ℚ}

/-- No other integer is nearer. -/
theorem NearestInteger.le (nearest : NearestInteger k (q / 2 ^ t)) (j : Int) :
    |(k : ℚ) * 2 ^ t - q| ≤ |j * 2 ^ t - q| := by
  have unit := two_zpow_pos t
  have scaled : ∀ n : ℚ, |n * 2 ^ t - q| = |n - q / 2 ^ t| * 2 ^ t := by
    intro n
    rw [← abs_of_pos unit, ← abs_mul, abs_of_pos unit, sub_mul, div_mul_cancel₀ _ unit.ne']
  rw [scaled, scaled]
  refine mul_le_mul_of_nonneg_right ?_ unit.le
  by_cases same : j = k
  · rw [same, Int.cast_natCast]
  · have apart : (1 : ℚ) ≤ |(j : ℚ) - k| := by
      have distance : 1 ≤ |j - (k : Int)| := Int.one_le_abs (sub_ne_zero.mpr same)
      exact_mod_cast distance
    have triangle := abs_sub_le (j : ℚ) (q / 2 ^ t) k
    have near := nearest.near
    rw [abs_sub_comm] at near
    linarith [abs_sub_comm (q / 2 ^ t) (k : ℚ)]

/-- Between doubles with more digits there are none that are nearer. -/
theorem NearestInteger.nearestDouble (nearest : NearestInteger k (q / 2 ^ t))
    (full : 2 ^ 52 * 2 ^ t ≤ q ∨ t = -1074) (representable : Representable ((k : ℚ) * 2 ^ t)) :
    NearestDouble q (k * 2 ^ t) := by
  refine ⟨representable, ?_⟩
  rintro _ ⟨⟨m, e, short, least, rfl⟩, -⟩
  by_cases inUnits : t ≤ e
  · rw [mul_two_zpow_eq m inUnits]
    exact nearest.le _
  · have first : (2 : ℚ) ^ 52 * 2 ^ t ≤ q := full.resolve_right (by omega)
    have digits : (m : ℚ) < 2 ^ 53 := by exact_mod_cast (abs_lt.mp short).2
    have below : (m : ℚ) * 2 ^ e ≤ 2 ^ 52 * 2 ^ t := calc
      (m : ℚ) * 2 ^ e ≤ 2 ^ 53 * 2 ^ e := mul_le_mul_of_nonneg_right digits.le (two_zpow_pos e).le
      _ ≤ 2 ^ 53 * 2 ^ (t - 1) := by
        have exponents : (2 : ℚ) ^ e ≤ 2 ^ (t - 1) := zpow_le_zpow_right₀ one_le_two (by omega)
        exact mul_le_mul_of_nonneg_left exponents (by positivity)
      _ = 2 ^ 52 * 2 ^ t := by rw [zpow_sub_one₀ two_ne_zero]; ring
    have near := nearest.le (2 ^ 52)
    push_cast at near
    refine near.trans ?_
    rw [abs_of_nonpos (by linarith), abs_of_nonpos (by linarith)]
    linarith

end Nearest

/-- An exact number and what becomes of it when it is rounded: a nearest double, or an infinity from
the end of the range on. -/
structure Rounded (q : ℚ) (u : UnpackedFloat) : Prop where
  inRange : |q| < Number.doubleLimit → ∃ v, value? u = some v ∧ NearestDouble q v
  above : Number.doubleLimit ≤ q → u = .infinity .positive
  below : q ≤ -Number.doubleLimit → u = .infinity .negative

/-- What a double keeps of a number. -/
def stored (u : UnpackedFloat) : UnpackedFloat :=
  UnpackedFloat.unpack .binary64 (UnpackedFloat.pack .binary64 u)

section Stored

variable {sign : Sign} {m k : Nat} {e t : Int}

theorem stored_zero (sign : Sign) : stored (.zero sign) = .zero sign := by
  cases sign <;> rfl

/-- A rounded mantissa is a double's again, unless it lies past the end of the range. -/
theorem carried_canonical (short : k ≤ 2 ^ 53) (least : -1074 ≤ t) (full : 2 ^ 52 ≤ k ∨ t = -1074) :
    ∃ n f, carried sign k t = ofDigits sign n f ∧ Canonical n f ∧ (n : ℚ) * 2 ^ f = k * 2 ^ t ∧
      (k ≠ 2 ^ 53 ∧ f = t ∨ k = 2 ^ 53 ∧ f = t + 1) := by
  unfold carried
  by_cases carry : k = 2 ^ 53
  · refine ⟨2 ^ 52, t + 1, if_pos carry, ⟨by norm_num, by omega, Or.inl le_rfl⟩, ?_,
      Or.inr ⟨carry, rfl⟩⟩
    rw [carry, zpow_add_one₀ two_ne_zero]
    push_cast
    ring
  · exact ⟨k, t, if_neg carry, ⟨by omega, least, full⟩, rfl, Or.inl ⟨carry, rfl⟩⟩

theorem stored_ofDigits (canonical : Canonical k t) (top : t ≤ 971) :
    value? (stored (ofDigits sign k t)) = some (((sign.apply k : Int) : ℚ) * 2 ^ t) := by
  unfold ofDigits
  split
  · rename_i none
    rw [none, stored_zero]
    cases sign <;> simp [value?, Sign.apply]
  · rw [stored, unpack_pack_finite canonical top]
    rfl

theorem stored_ofDigits_infinite (positive : 0 < k) (tooLarge : 972 ≤ t) :
    stored (ofDigits sign k t) = .infinity sign := by
  unfold ofDigits
  rw [dif_neg positive.ne']
  exact unpack_pack_infinite tooLarge

/-- The nearest integer has all its digits in use if the number has. -/
theorem NearestInteger.full {q : ℚ} (nearest : NearestInteger k (q / 2 ^ t))
    (full : 2 ^ 52 * 2 ^ t ≤ q) : 2 ^ 52 ≤ k := by
  have above : (2 : ℚ) ^ 52 ≤ q / 2 ^ t := (le_div_iff₀ (two_zpow_pos t)).mpr full
  have near := (abs_le.mp nearest.near).1
  have less : ((2 ^ 52 : Nat) : ℚ) < k + 1 := by
    push_cast
    linarith
  exact Nat.le_of_lt_succ (by exact_mod_cast less)

/-- The last half unit is rounded up to a mantissa with a digit too many. -/
theorem NearestInteger.carry_iff {x : ℚ} (nearest : NearestInteger k x) (short : k ≤ 2 ^ 53) :
    k = 2 ^ 53 ↔ 2 ^ 53 - 1 / 2 ≤ x := by
  have near := abs_le.mp nearest.near
  constructor
  · rintro rfl
    have above := near.2
    push_cast at above
    linarith
  · intro above
    by_contra other
    have least : k + 1 ≤ 2 ^ 53 := by omega
    have below : (k : ℚ) + 1 ≤ 2 ^ 53 := by exact_mod_cast least
    -- The number would lie half way above an odd integer, and ties go to even ones.
    have tie : |(k : ℚ) - x| = 1 / 2 := by
      rw [abs_of_nonpos (by linarith)]
      linarith
    have odd : (k : ℚ) = (2 ^ 53 - 1 : Nat) := by
      rw [abs_of_nonpos (by linarith)] at tie
      norm_num
      linarith
    have last : k = 2 ^ 53 - 1 := by exact_mod_cast odd
    have even := nearest.even tie
    omega

/-- A number with an exponent past the last one is out of range, one with a smaller exponent is not. -/
theorem unitExponent_le {m : Nat} (positive : 0 < m) (inRange : (m : ℚ) * 2 ^ e < Number.doubleLimit) :
    unitExponent m e ≤ 971 := by
  by_contra! past
  have units : (2 : ℚ) * 2 ^ (971 : Int) ≤ 2 ^ unitExponent m e := by
    rw [← zpow_one_add₀ two_ne_zero]
    exact zpow_le_zpow_right₀ one_le_two (by omega)
  have first := unit_le positive (by omega : unitExponent m e ≠ -1074)
  rw [cast_doubleLimit] at inRange
  have unit := two_zpow_pos 971
  generalize (2 : ℚ) ^ (971 : Int) = last at units inRange unit
  linarith

/-- Rounding gives a canonical number, whose exponent is too large exactly if the number is out of
range. -/
theorem round_spec {m : Nat} (sign : Sign) (positive : 0 < m) (e : Int) :
    ∃ n f, UnpackedFloat.round .binary64 sign m e = ofDigits sign n f ∧ Canonical n f ∧
      (f ≤ 971 ↔ (m : ℚ) * 2 ^ e < Number.doubleLimit) ∧
      (f ≤ 971 → NearestDouble (m * 2 ^ e) (n * 2 ^ f)) := by
  obtain ⟨k, nearest, rounded⟩ := round_eq sign positive e
  have least := least_le_unitExponent m e
  have inUnits := lt_unit m e
  have full : unitExponent m e ≠ -1074 → 2 ^ 52 * 2 ^ unitExponent m e ≤ (m : ℚ) * 2 ^ e :=
    unit_le positive
  have inTop := @unitExponent_le e m positive
  generalize unitExponent m e = t at *
  generalize (m : ℚ) * 2 ^ e = q at *
  have unit := two_zpow_pos t
  have short : k ≤ 2 ^ 53 := nearest.le_of_lt (by
    rw [div_lt_iff₀ unit]
    exact_mod_cast inUnits)
  have carry := nearest.carry_iff short
  rw [le_div_iff₀ unit] at carry
  obtain ⟨n, f, digits, canonical, same, exponent⟩ := @carried_canonical sign k t short least
    (or_iff_not_imp_right.mpr fun normal => nearest.full (full normal))
  refine ⟨n, f, rounded.trans digits, canonical, ?_, fun top => ?_⟩
  · constructor
    · intro top
      -- With the last exponent only the carried mantissa is out of range.
      by_cases last : t = 971
      · subst last
        rw [cast_doubleLimit, ← not_le, ← carry]
        omega
      · have smaller : (2 : ℚ) ^ t ≤ 2 ^ (970 : Int) := zpow_le_zpow_right₀ one_le_two (by omega)
        rw [cast_doubleLimit_half]
        generalize (2 : ℚ) ^ (970 : Int) = half at smaller
        linarith
    · intro inRange
      have top := inTop inRange
      by_contra past
      have last : t = 971 := by omega
      have most : k = 2 ^ 53 := by omega
      subst last
      rw [cast_doubleLimit] at inRange
      exact absurd (carry.mp most) (not_le.mpr inRange)
  · have representable := canonical.representable top .positive
    rw [same]
    change Representable ((n : ℚ) * 2 ^ f) at representable
    rw [same] at representable
    exact nearest.nearestDouble (or_iff_not_imp_right.mpr full) representable

theorem Rounded.of_representable {q : ℚ} {u : UnpackedFloat} (value : value? u = some q)
    (representable : Representable q) : Rounded q u := by
  have inRange := abs_lt.mp representable.lt_doubleLimit
  refine ⟨fun _ => ⟨q, value, representable, fun w _ => ?_⟩, fun above => ?_, fun below => ?_⟩
  · rw [sub_self, abs_zero]
    exact abs_nonneg _
  · exact absurd inRange.2 (not_lt.mpr above)
  · exact absurd inRange.1 (not_lt.mpr below)

/-- What rounding makes of a mantissa and an exponent is the number with these, rounded. -/
theorem rounded_round (sign : Sign) {m : Nat} (positive : 0 < m) (e : Int) :
    Rounded (((sign.apply m : Int) : ℚ) * 2 ^ e)
      (stored (UnpackedFloat.round .binary64 sign m e)) := by
  obtain ⟨n, f, digits, canonical, inRange, nearest⟩ := round_spec sign positive e
  have size : (0 : ℚ) < m * 2 ^ e := mul_pos (Nat.cast_pos.mpr positive) (two_zpow_pos e)
  have limit : (0 : ℚ) < Number.doubleLimit := by
    rw [cast_doubleLimit]
    exact mul_pos (by norm_num) (two_zpow_pos 971)
  have infinite : (Number.doubleLimit : ℚ) ≤ m * 2 ^ e →
      stored (UnpackedFloat.round .binary64 sign m e) = .infinity sign := by
    intro above
    have past : 972 ≤ f := by
      by_contra! top
      exact absurd (inRange.mp (by omega)) (not_lt.mpr above)
    have full : 2 ^ 52 ≤ n := canonical.full.resolve_right (by omega)
    rw [digits, stored_ofDigits_infinite (by omega) past]
  have finite : (m : ℚ) * 2 ^ e < Number.doubleLimit →
      value? (stored (UnpackedFloat.round .binary64 sign m e)) =
          some (((sign.apply n : Int) : ℚ) * 2 ^ f) ∧
        NearestDouble (m * 2 ^ e) (n * 2 ^ f) := by
    intro fits
    have top := inRange.mpr fits
    rw [digits]
    exact ⟨stored_ofDigits canonical top, nearest top⟩
  cases sign with
  | positive =>
    simp only [Sign.apply, Int.cast_natCast] at *
    refine ⟨fun fits => ?_, infinite, fun below => absurd below (by linarith)⟩
    rw [abs_of_pos size] at fits
    exact ⟨_, finite fits⟩
  | negative =>
    simp only [Sign.apply, Int.cast_neg, Int.cast_natCast, neg_mul] at *
    refine ⟨fun fits => ?_, fun above => absurd above (by linarith), fun below => infinite (by linarith)⟩
    rw [abs_neg, abs_of_pos size] at fits
    obtain ⟨value, near⟩ := finite fits
    exact ⟨_, value, near.neg⟩

/-- Scaled integers are rounded to nearest doubles. -/
theorem rounded_ofScaled (sign : Sign) (m : Nat) (e : Int) :
    Rounded (((sign.apply m : Int) : ℚ) * 2 ^ e) (ofScaled sign m e).toModel.unpack := by
  change Rounded _ (stored (UnpackedFloat.round .binary64 sign m e))
  rcases Nat.eq_zero_or_pos m with rfl | positive
  · have zero : ((sign.apply (0 : Nat) : Int) : ℚ) * 2 ^ e = 0 := by cases sign <;> simp [Sign.apply]
    rw [round_zero, stored_zero, zero]
    exact Rounded.of_representable rfl Representable.zero
  · exact rounded_round sign positive e

theorem Rounded.value_eq {q : ℚ} {u : UnpackedFloat} (rounded : Rounded q u)
    (representable : Representable q) : value? u = some q := by
  obtain ⟨v, value, nearest⟩ := rounded.inRange representable.lt_doubleLimit
  rw [value, nearest.eq_of_representable representable]

/-- The represented numbers are the values of doubles. -/
theorem representable_iff (q : ℚ) : Representable q ↔ ∃ x, toRat? x = some q := by
  constructor
  · intro representable
    obtain ⟨m, e, -, -, rfl⟩ := representable.digits
    obtain ⟨n, rfl | rfl⟩ := m.eq_nat_or_neg
    · exact ⟨_, (rounded_ofScaled .positive n e).value_eq representable⟩
    · exact ⟨_, (rounded_ofScaled .negative n e).value_eq representable⟩
  · rintro ⟨x, value⟩
    exact representable_of_toRat? value

theorem rounded_normalize (m : Int) (e : Int) (sign : Sign) :
    Rounded ((m : ℚ) * 2 ^ e) (stored (UnpackedFloat.normalize .binary64 m e sign)) := by
  unfold UnpackedFloat.normalize
  rcases lt_trichotomy m 0 with less | rfl | greater
  · rw [compare_lt_iff_lt.mpr less]
    have rounded := rounded_round .negative (by omega : 0 < (-m).toNat) e
    have back : Sign.negative.apply ((-m).toNat : Int) = m := by
      simp only [Sign.apply]
      omega
    rwa [back] at rounded
  · rw [compare_eq_iff_eq.mpr rfl]
    dsimp only
    rw [stored_zero, Int.cast_zero, zero_mul]
    exact Rounded.of_representable rfl Representable.zero
  · rw [compare_gt_iff_gt.mpr greater]
    have rounded := rounded_round .positive (by omega : 0 < m.toNat) e
    have back : Sign.positive.apply (m.toNat : Int) = m := by
      simp only [Sign.apply]
      omega
    rwa [back] at rounded

end Stored

section Sums

variable {x y : Float} {p q : ℚ}

/-- A sum of doubles is the exact sum, rounded. -/
theorem rounded_add (left : toRat? x = some p) (right : toRat? y = some q) :
    Rounded (p + q) (x + y).toModel.unpack := by
  change Rounded _ (stored (UnpackedFloat.add .binary64 x.toModel.unpack y.toModel.unpack))
  have onLeft := representable_of_toRat? left
  have onRight := representable_of_toRat? right
  obtain ⟨rfl, s, first⟩ | ⟨s, m, e, nonzero, first, one, top, rfl⟩ := exists_finite left
  · rw [zero_add]
    obtain ⟨rfl, t, second⟩ | ⟨t, n, f, other, second, two, below, rfl⟩ := exists_finite right
    · rw [first, second]
      refine Rounded.of_representable ?_ Representable.zero
      cases s <;> cases t <;> rfl
    · rw [first, second]
      refine Rounded.of_representable ?_ onRight
      change value? (stored (.finite t n f other)) = _
      rw [stored, unpack_pack_finite two below]
      rfl
  · obtain ⟨rfl, t, second⟩ | ⟨t, n, f, other, second, two, below, rfl⟩ := exists_finite right
    · rw [add_zero, first, second]
      refine Rounded.of_representable ?_ onLeft
      change value? (stored (.finite s m e nonzero)) = _
      rw [stored, unpack_pack_finite one top]
      rfl
    · rw [first, second, apply_decreaseExponent s m (min_le_left e f),
        apply_decreaseExponent t n (min_le_right e f), ← add_mul, ← Int.cast_add]
      exact rounded_normalize _ _ _

theorem apply_neg (sign : Sign) (n : Int) : (-sign).apply n = -sign.apply n := by
  cases sign with
  | positive => rfl
  | negative => exact (Int.neg_neg n).symm

/-- Subtracting is adding the number with the other sign. -/
theorem sub_eq_add (u w : UnpackedFloat) :
    UnpackedFloat.sub .binary64 u w = UnpackedFloat.add .binary64 u w.neg := by
  cases u <;> cases w <;> try rfl
  simp only [UnpackedFloat.sub, UnpackedFloat.add, UnpackedFloat.neg, apply_neg, Int.sub_eq_add_neg]

theorem toRat?_neg (value : toRat? x = some q) :
    toRat? (-x) = some (-q) ∧ (-x).toModel.unpack = x.toModel.unpack.neg := by
  change value? (stored x.toModel.unpack.neg) = _ ∧ stored x.toModel.unpack.neg = _
  obtain ⟨rfl, s, unpacked⟩ | ⟨s, m, e, positive, unpacked, canonical, top, rfl⟩ := exists_finite value
  · rw [unpacked]
    cases s <;> exact ⟨by rw [neg_zero]; rfl, rfl⟩
  · rw [unpacked]
    rw [UnpackedFloat.neg, stored, unpack_pack_finite canonical top]
    refine ⟨?_, rfl⟩
    rw [value?, apply_neg, Int.cast_neg, neg_mul]

/-- A difference of doubles is the exact difference, rounded. -/
theorem rounded_sub (left : toRat? x = some p) (right : toRat? y = some q) :
    Rounded (p - q) (x - y).toModel.unpack := by
  obtain ⟨value, unpacked⟩ := toRat?_neg right
  have rounded := rounded_add left value
  change Rounded _ (stored (UnpackedFloat.add .binary64 x.toModel.unpack (-y).toModel.unpack)) at rounded
  rw [unpacked, ← sub_eq_add, ← sub_eq_add_neg] at rounded
  exact rounded

end Sums

end TickGraph.Double
