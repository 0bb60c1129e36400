import TowerLisp.Number.Modulo
import TowerLisp.Proofs.DecimalArithmetic
import TowerLisp.Proofs.Outcomes

/-!
Remainders of decimals. The quotient is rounded before it is cut down to an integer, so that a
remainder is that of a floored division as long as the quotient has digits for the fraction that
is cut off.
-/

namespace TowerLisp

namespace Decimal

/-- An approximation of a fraction of integers has the same floor, if it is nearer than the
divisor's part of one and exact for integers. -/
theorem floor_eq_of_near {m n : ℤ} {w K : ℚ} (hn : n ≠ 0) (hm : |(m : ℚ)| < K)
    (hnear : K * |w - m / n| ≤ |(m : ℚ) / n|) (hexact : ∀ i : ℤ, (m : ℚ) / n = i → w = m / n) :
    ⌊w⌋ = ⌊(m : ℚ) / n⌋ := by
  by_cases hinteger : ∃ i : ℤ, (m : ℚ) / n = i
  · obtain ⟨i, hi⟩ := hinteger
    rw [hexact i hi]
  have hn' : (0 : ℚ) < |(n : ℚ)| := abs_pos.mpr (by exact_mod_cast hn)
  have hclose : |w - m / n| * |(n : ℚ)| < 1 := by
    have hK : 0 < K := (abs_nonneg _).trans_lt hm
    rw [abs_div, le_div_iff₀ hn'] at hnear
    nlinarith
  -- An integer is at least the divisor's part of one away from the fraction.
  have haway : ∀ i : ℤ, 1 ≤ |(m : ℚ) / n - i| * |(n : ℚ)| := by
    intro i
    have hne : m - i * n ≠ 0 := by
      intro hzero
      refine hinteger ⟨i, ?_⟩
      rw [div_eq_iff (by exact_mod_cast hn)]
      exact_mod_cast sub_eq_zero.mp hzero
    rw [← abs_mul, sub_mul, div_mul_cancel₀ _ (by exact_mod_cast hn)]
    exact_mod_cast Int.one_le_abs hne
  have hfloor := Int.floor_le ((m : ℚ) / n)
  have hceil := Int.lt_floor_add_one ((m : ℚ) / n)
  generalize ⌊(m : ℚ) / n⌋ = k at hfloor hceil ⊢
  have hlow := haway k
  have hhigh := haway (k + 1)
  rw [abs_of_nonneg (by linarith)] at hlow
  push_cast at hhigh
  rw [abs_of_nonpos (by linarith)] at hhigh
  rw [Int.floor_eq_iff]
  have hbelow : |w - m / n| < m / n - k := lt_of_mul_lt_mul_right (hclose.trans_le hlow) hn'.le
  have habove : |w - m / n| < -(m / n - (k + 1)) :=
    lt_of_mul_lt_mul_right (hclose.trans_le hhigh) hn'.le
  rw [abs_lt] at hbelow habove
  constructor <;> linarith

/-- The remainder of a floored division of integers has the sign of the divisor and is smaller,
and the multiple of the divisor that is taken away is not much larger than both numbers. -/
theorem floored_bounds (m : ℤ) {n : ℤ} (hn : n ≠ 0) :
    (m - n * ⌊(m : ℚ) / n⌋ = 0 ∨ (0 < m - n * ⌊(m : ℚ) / n⌋ ↔ 0 < n)) ∧
      |m - n * ⌊(m : ℚ) / n⌋| < |n| ∧ |n * ⌊(m : ℚ) / n⌋| ≤ max (2 * |m|) |n| := by
  have hfloor := Int.floor_le ((m : ℚ) / n)
  have hceil := Int.lt_floor_add_one ((m : ℚ) / n)
  generalize ⌊(m : ℚ) / n⌋ = k at hfloor hceil ⊢
  have hbetween : 0 < n ∧ n * k ≤ m ∧ m < n * k + n ∨ n < 0 ∧ m ≤ n * k ∧ n * k + n < m := by
    rcases lt_or_gt_of_ne hn with hneg | hpos
    · have hneg' : (n : ℚ) < 0 := by exact_mod_cast hneg
      rw [le_div_iff_of_neg hneg'] at hfloor
      rw [div_lt_iff_of_neg hneg', add_mul, one_mul] at hceil
      exact Or.inr ⟨hneg, by rw [mul_comm]; exact_mod_cast hfloor,
        by rw [mul_comm]; exact_mod_cast hceil⟩
    · have hpos' : (0 : ℚ) < n := by exact_mod_cast hpos
      rw [le_div_iff₀ hpos'] at hfloor
      rw [div_lt_iff₀ hpos', add_mul, one_mul] at hceil
      exact Or.inl ⟨hpos, by rw [mul_comm]; exact_mod_cast hfloor,
        by rw [mul_comm]; exact_mod_cast hceil⟩
  -- Only a quotient of minus one takes away more than twice the dividend.
  have hmultiple : 0 ≤ k ∨ k = -1 ∨ k ≤ -2 := by omega
  have hproduct : 0 ≤ k ∧ (0 < n → 0 ≤ n * k) ∧ (n < 0 → n * k ≤ 0) ∨ n * k = -n ∨
      (0 < n → n * k ≤ -2 * n) ∧ (n < 0 → -2 * n ≤ n * k) := by
    rcases hmultiple with hk | rfl | hk
    · exact Or.inl ⟨hk, fun h => mul_nonneg h.le hk,
        fun h => mul_nonpos_of_nonpos_of_nonneg h.le hk⟩
    · exact Or.inr (Or.inl (by ring))
    · exact Or.inr (Or.inr ⟨fun h => by nlinarith, fun h => by nlinarith⟩)
  generalize n * k = taken at hbetween hproduct ⊢
  simp only [Int.abs_eq_natAbs]
  omega

end Decimal

namespace Scalar

open Decimal

/-- The remainder of decimals is exact for numbers at a common place, if the dividend is less
than two units in the place of the last digit but one that is kept and the divisor fits. -/
theorem floorModDecimal_value {x y z : Decimal} {u v : ℚ} {m n g : ℤ} (hx : x.toRat? = some u)
    (hy : y.toRat? = some v) (hv : v ≠ 0) (hu : u = m * 10 ^ g) (hvn : v = n * 10 ^ g)
    (hg : Precision.wide.tiny ≤ g) (hm : |m| < 2 * 10 ^ 33) (hn : |n| < 10 ^ 34)
    (h : floorModDecimal x y = .ok z) :
    z.toRat? = some (u - v * ⌊u / v⌋) := by
  have hdigits : 0 < Precision.wide.digits := by decide
  have hunit : (10 : ℚ) ^ g ≠ 0 := zpow_ne_zero g (by norm_num)
  have hn0 : n ≠ 0 := by
    rintro rfl
    exact hv (by rw [hvn, Int.cast_zero, zero_mul])
  have hquotient : u / v = m / n := by
    rw [hu, hvn, mul_div_mul_right _ _ hunit]
  obtain ⟨-, hrest, htaken⟩ := floored_bounds m hn0
  rw [hquotient]
  generalize hk : ⌊(m : ℚ) / n⌋ = k at hrest htaken ⊢
  obtain ⟨q, hdiv, h⟩ := bind_eq_ok h
  obtain ⟨taken, hmul, hsub⟩ := bind_eq_ok h
  -- The quotient is rounded to the right side of each integer.
  have hnormal : u ≠ 0 → 10 ^ Precision.wide.minExponent ≤ |u / v| := by
    intro hu0
    have hm0 : m ≠ 0 := by
      rintro rfl
      exact hu0 (by rw [hu, Int.cast_zero, zero_mul])
    have hm1 : (1 : ℚ) ≤ |(m : ℚ)| := by exact_mod_cast Int.one_le_abs hm0
    have hn' : |(n : ℚ)| ≤ 10 ^ 34 := by exact_mod_cast hn.le
    have hpos : 0 < |(n : ℚ)| := abs_pos.mpr (by exact_mod_cast hn0)
    calc (10 : ℚ) ^ Precision.wide.minExponent ≤ 10 ^ (-(34 : ℕ) : ℤ) :=
          zpow_le_zpow_right₀ (by norm_num) (by decide)
      _ = 1 / 10 ^ 34 := by rw [zpow_neg, zpow_natCast, one_div]
      _ ≤ |(m : ℚ)| / |(n : ℚ)| := by gcongr
      _ = |u / v| := by rw [hquotient, abs_div]
  obtain ⟨w, hw, hnear, hexact⟩ := div_near hdigits hx hy hv hnormal hdiv
  rw [hquotient] at hnear hexact
  have hfloor : ⌊w⌋ = k := by
    rw [← hk]
    refine floor_eq_of_near hn0 (by exact_mod_cast hm) hnear fun i hi => ?_
    have hi' : m = i * n := by
      rw [div_eq_iff (by exact_mod_cast hn0)] at hi
      exact_mod_cast hi
    have hle : |i| ≤ |m| := by
      rw [hi', abs_mul]
      exact le_mul_of_one_le_right (abs_nonneg i) (Int.one_le_abs hn0)
    refine hexact ⟨i, 0, (hle.trans_lt hm).trans_le ?_, by decide, by rw [hi, zpow_zero, mul_one]⟩
    exact le_of_lt (show (2 * 10 ^ 33 : ℤ) < 10 ^ 34 by norm_num)
  have hmultiple : v * k = (n * k : ℤ) * 10 ^ g := by
    rw [hvn]
    push_cast
    ring
  have htaken' : |n * k| < 10 ^ 34 := by omega
  have htake : taken.toRat? = some (v * k) := by
    have hq := floor_toRat hw
    rw [hfloor] at hq
    exact mul_fits hdigits hy hq ⟨n * k, g, htaken', hg, hmultiple⟩ hmul
  have hrest' : u + -(v * k) = (m - n * k : ℤ) * 10 ^ g := by
    rw [hmultiple, hu]
    push_cast
    ring
  rw [sub_eq_add_neg]
  refine add_fits hdigits hx (flip_toRat htake) hu (n := -(n * k)) ?_ ?_ ?_
    ⟨_, g, ?_, hg, hrest'⟩ hsub
  · rw [hmultiple]
    push_cast
    ring
  · exact hm.trans (show (2 * 10 ^ 33 : ℤ) < 10 ^ 34 by norm_num)
  · rwa [abs_neg]
  · exact hrest.trans hn

end Scalar

namespace Number

open Scalar (floorModDecimal)

theorem mod_bigfloat {a b : Decimal} {r : Number} (hb : b.isZero = false)
    (h : mod (scalar (.bigfloat a)) (scalar (.bigfloat b)) = .ok r) :
    ∃ d, floorModDecimal a b = .ok d ∧ r = scalar (.bigfloat d) := by
  have hzero : (Scalar.bigfloat b).isZero = false := hb
  have hjoin : (Scalar.bigfloat a).join (.bigfloat b) = .bigfloat := rfl
  simp only [mod, hzero, Bool.false_eq_true, if_false, floorModPart, real, Scalar.floorMod, hjoin,
    Scalar.toDecimal, ok_bind] at h
  obtain ⟨s, hs, hr⟩ := bind_eq_ok h
  obtain ⟨d, hd, hs⟩ := bind_eq_ok hs
  cases hs
  cases hr
  exact ⟨d, hd, rfl⟩

/-- The remainder of decimals takes the sign of the divisor and is smaller, as of a division that
is rounded down, if both are integers at a common place and the dividend has less than
`2 * 10 ^ 33` units of that place and the divisor less than `10 ^ 34`. A longer quotient is
rounded before it is cut down, possibly to the integer above it. -/
theorem decimal_remainder_floored {a b : Decimal} {x y : ℚ} {m n g : ℤ} {r : Number}
    (ha : a.toRat? = some x) (hb : b.toRat? = some y) (hy : y ≠ 0)
    (hx : x = m * 10 ^ g) (hyn : y = n * 10 ^ g) (hg : Precision.wide.tiny ≤ g)
    (hm : |m| < 2 * 10 ^ 33) (hn : |n| < 10 ^ 34)
    (h : mod (scalar (.bigfloat a)) (scalar (.bigfloat b)) = .ok r) :
    ∃ d z, r = scalar (.bigfloat d) ∧ d.toRat? = some z ∧ z = x - y * ⌊x / y⌋ ∧
      (z = 0 ∨ (0 < z ↔ 0 < y)) ∧ |z| < |y| := by
  have hunit : (0 : ℚ) < 10 ^ g := zpow_pos (by norm_num) g
  have hn0 : n ≠ 0 := by
    rintro rfl
    exact hy (by rw [hyn, Int.cast_zero, zero_mul])
  have hdivisor : b.isZero = false := by
    obtain ⟨t, d, f, rfl, rfl⟩ := Decimal.exists_finite hb
    exact beq_eq_false_iff_ne.mpr fun hzero => hy (Decimal.denoted_eq_zero_iff.mpr hzero)
  obtain ⟨d, hd, rfl⟩ := mod_bigfloat hdivisor h
  have hvalue := Scalar.floorModDecimal_value ha hb hy hx hyn hg hm hn hd
  have hrest : x - y * ⌊x / y⌋ = (m - n * ⌊(m : ℚ) / n⌋ : ℤ) * 10 ^ g := by
    rw [hx, hyn, mul_div_mul_right _ _ hunit.ne']
    push_cast
    ring
  obtain ⟨hsign, hsmall, -⟩ := Decimal.floored_bounds m hn0
  refine ⟨d, _, rfl, hvalue, rfl, ?_, ?_⟩
  · rw [hrest, hyn, mul_pos_iff_of_pos_right hunit, mul_pos_iff_of_pos_right hunit,
      mul_eq_zero_iff_right hunit.ne']
    exact_mod_cast hsign
  · rw [hrest, hyn, abs_mul, abs_mul]
    gcongr
    exact_mod_cast hsmall

/-- The remainder of -7.5 by 2 is 0.5. -/
theorem decimal_remainder_floored_negative :
    mod (scalar (.bigfloat (.finite true 75 (-1)))) (scalar (.bigfloat (.finite false 2 0))) =
        .ok (scalar (.bigfloat (.finite false 5 (-1)))) ∧
      ∃ d z, scalar (.bigfloat (.finite false 5 (-1))) = scalar (.bigfloat d) ∧
        d.toRat? = some z ∧ z = -15 / 2 - 2 * ⌊(-15 / 2 : ℚ) / 2⌋ ∧
        (z = 0 ∨ (0 < z ↔ (0 : ℚ) < 2)) ∧ |z| < |2| := by
  have hdividend : (Decimal.finite true 75 (-1)).toRat? = some (-15 / 2) := by
    rw [Decimal.toRat?_finite]
    norm_num [Decimal.denoted, Binary64.signed]
  have hdivisor : (Decimal.finite false 2 0).toRat? = some 2 := by
    rw [Decimal.toRat?_finite]
    norm_num [Decimal.denoted, Binary64.signed]
  have hmod : mod (scalar (.bigfloat (.finite true 75 (-1))))
      (scalar (.bigfloat (.finite false 2 0))) =
        .ok (scalar (.bigfloat (.finite false 5 (-1)))) := by
    decide
  exact ⟨hmod, decimal_remainder_floored (m := -75) (n := 20) (g := -1) hdividend hdivisor
    (by norm_num) (by norm_num) (by norm_num) (by decide) (by norm_num) (by norm_num) hmod⟩

/-- The quotient of these numbers is an integer less a twentieth, which rounding takes away. -/
theorem decimal_remainder_below_zero :
    ¬ ∀ (a b d : Decimal) (x y z : ℚ), a.toRat? = some x → b.toRat? = some y → y ≠ 0 →
      mod (scalar (.bigfloat a)) (scalar (.bigfloat b)) = .ok (scalar (.bigfloat d)) →
      d.toRat? = some z → (z = 0 ∨ (0 < z ↔ 0 < y)) ∧ |z| < |y| := by
  intro h
  have hmod : mod (scalar (.bigfloat (.finite false 2000000000000000000000000000000019 0)))
      (scalar (.bigfloat (.finite false 20 0))) = .ok (scalar (.bigfloat (.finite true 1 0))) := by
    decide
  have hsign := (h _ _ _ _ _ _ (Decimal.toRat?_finite _ _ _) (Decimal.toRat?_finite _ _ _)
    (by norm_num [Decimal.denoted, Binary64.signed]) hmod (Decimal.toRat?_finite _ _ _)).1
  norm_num [Decimal.denoted, Binary64.signed] at hsign

end Number

end TowerLisp
