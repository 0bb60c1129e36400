import Mathlib.Algebra.Order.Floor.Ring
import Mathlib.Data.Nat.Cast.Field
import Mathlib.Data.Nat.Cast.Order.Field
import Mathlib.Data.Rat.Floor
import TowerLisp.Proofs.DecimalRounding

/-!
Arithmetic of decimals. A quotient is the number nearest to the fraction, and products and sums
are exact where the result fits the precision.
-/

namespace TowerLisp

namespace Decimal

open Binary64 (signed)

variable {p : Precision}

theorem reduceToward_value (ideal : ℤ) (fuel c : ℕ) (e : ℤ) :
    ((reduceToward ideal fuel c e).1 : ℚ) * 10 ^ (reduceToward ideal fuel c e).2 =
      c * 10 ^ e := by
  induction fuel generalizing c e with
  | zero => rfl
  | succ fuel ih =>
    rw [reduceToward]
    split
    · next h =>
      have hten : c % 10 = 0 := by simp_all
      obtain ⟨k, rfl⟩ := Nat.dvd_of_mod_eq_zero hten
      rw [ih, Nat.mul_div_cancel_left k (by decide), zpow_add₀ (by norm_num)]
      push_cast
      ring
    · rfl

/-- A quotient that is not a multiple of its divisor stands for the fraction, if it is long
enough and if its last digit is neither 0 nor 5. -/
theorem standsFor_div {n d : ℕ} (hd : 0 < d) (hlong : 10 ^ p.digits ≤ n / d) (hrest : n % d ≠ 0) :
    p.StandsFor (if n / d % 5 = 0 then n / d + 1 else n / d) (n / d) := by
  have hpos : (0 : ℚ) < d := by exact_mod_cast hd
  have hbelow : ((n / d : ℕ) : ℚ) ≤ n / d := Nat.cast_div_le
  have habove : (n : ℚ) / d ≤ (n / d : ℕ) + 1 := by
    rw [div_le_iff₀ hpos]
    exact_mod_cast (mul_comm d (n / d + 1) ▸ Nat.lt_mul_div_succ n hd).le
  refine ⟨?_, ?_, ?_, ?_⟩
  · split <;> omega
  · rw [abs_le]
    split <;> push_cast <;> constructor <;> linarith
  · split <;> omega
  · intro i hi
    rw [div_eq_iff hpos.ne'] at hi
    have hdvd : (d : ℤ) ∣ n := ⟨i, by rw [mul_comm]; exact_mod_cast hi⟩
    exact hrest (Nat.mod_eq_zero_of_dvd (by exact_mod_cast hdvd))

/-- The fraction of two coefficients is scaled so that its quotient is longer than the precision,
and the quotient is that fraction or stands for it. -/
theorem quotient_stands (p : Precision) {c d : ℕ} (hc : 0 < c) (hd : 0 < d) (e f : ℤ) :
    ∃ y : ℚ, y * 10 ^ (quotient p c e d f).2 = c * 10 ^ e / (d * 10 ^ f) ∧
      (((quotient p c e d f).1 : ℚ) = y ∨ p.StandsFor (quotient p c e d f).1 y) := by
  have hten : (10 : ℚ) ≠ 0 := by norm_num
  have hd' : (d : ℚ) ≠ 0 := by exact_mod_cast hd.ne'
  let shift : ℤ := Digits.count d - Digits.count c + (p.digits + 1 : ℕ)
  obtain ⟨n, m, hm, hscaled, hform⟩ : ∃ n m : ℕ, 0 < m ∧ (n : ℚ) / m = c / d * 10 ^ shift ∧
      quotient p c e d f = if n % m = 0 then
          reduceToward (e - f) (Digits.count (n / m)) (n / m) (e - f - shift)
        else (if n / m % 5 = 0 then n / m + 1 else n / m, e - f - shift) := by
    rcases lt_or_ge shift 0 with hneg | hpos
    · refine ⟨c, d * 10 ^ (-shift).toNat, by positivity, ?_, ?_⟩
      · obtain ⟨k, hk⟩ := Int.exists_eq_neg_ofNat hneg.le
        rw [hk, zpow_neg, zpow_natCast, neg_neg, Int.toNat_natCast]
        push_cast
        field_simp
      · simp only [quotient, Nat.pow_eq]
        rw [if_pos hneg]
    · refine ⟨c * 10 ^ shift.toNat, d, hd, ?_, ?_⟩
      · obtain ⟨k, hk⟩ := Int.eq_ofNat_of_zero_le hpos
        rw [hk, zpow_natCast, Int.toNat_natCast]
        push_cast
        field_simp
      · simp only [quotient, Nat.pow_eq]
        rw [if_neg (not_lt.mpr hpos)]
  have hm' : (0 : ℚ) < m := by exact_mod_cast hm
  have hvalue : (n : ℚ) / m * 10 ^ (e - f - shift) = c * 10 ^ e / (d * 10 ^ f) := by
    rw [hscaled, zpow_sub₀ hten, zpow_sub₀ hten]
    have := zpow_ne_zero shift hten
    have := zpow_ne_zero f hten
    field_simp
  by_cases hexact : n % m = 0
  · rw [hform, if_pos hexact]
    have hkeep := reduceToward_value (e - f) (Digits.count (n / m)) (n / m) (e - f - shift)
    refine ⟨_, ?_, Or.inl rfl⟩
    rw [hkeep, Nat.cast_div (Nat.dvd_of_mod_eq_zero hexact) hm'.ne', hvalue]
  · rw [hform, if_neg hexact]
    refine ⟨n / m, hvalue, Or.inr (standsFor_div hm ?_ hexact)⟩
    rw [Nat.le_div_iff_mul_le hm]
    have hlow : (10 : ℚ) ^ (Digits.count c - 1) ≤ c := by exact_mod_cast Digits.pow_count_le hc
    have hhigh : (d : ℚ) < 10 ^ Digits.count d := by exact_mod_cast Digits.lt_pow_count d
    have hcount := Digits.count_pos c
    have hlong : (10 : ℚ) ^ p.digits ≤ n / m := by
      rw [hscaled]
      calc (10 : ℚ) ^ p.digits
          = 10 ^ (Digits.count c - 1) / 10 ^ Digits.count d * 10 ^ shift := by
            rw [← zpow_natCast, ← zpow_natCast, ← zpow_natCast, ← zpow_sub₀ hten,
              ← zpow_add₀ hten]
            congr 1
            omega
        _ ≤ c / d * 10 ^ shift := by
            have := zpow_pos (by norm_num : (0 : ℚ) < 10) shift
            gcongr
    rw [le_div_iff₀ hm'] at hlong
    exact_mod_cast hlong

/-- A quotient is rounded from a coefficient that is the fraction, or stands for it, at some
exponent. -/
theorem div_eq_round {x y z : Decimal} {u v : ℚ} (hx : x.toRat? = some u) (hy : y.toRat? = some v)
    (hv : v ≠ 0) (h : div p x y = .ok z) :
    ∃ s q g w, p.round s q g = .ok z ∧ u / v = signed s 1 * (w * 10 ^ g) ∧ 0 ≤ w ∧
      ((q : ℚ) = w ∨ p.StandsFor q w) := by
  obtain ⟨s, c, e, rfl, rfl⟩ := exists_finite hx
  obtain ⟨t, d, f, rfl, rfl⟩ := exists_finite hy
  have hd : d ≠ 0 := fun hzero => hv (denoted_eq_zero_iff.mpr hzero)
  rw [div, if_neg hd] at h
  split at h
  · next hzero =>
    refine ⟨_, _, _, 0, h, ?_, le_rfl, Or.inl Nat.cast_zero⟩
    rw [hzero, denoted_zero, zero_div, zero_mul, mul_zero]
  · next hzero =>
    obtain ⟨w, hvalue, hstands⟩ :=
      quotient_stands p (Nat.pos_of_ne_zero hzero) (Nat.pos_of_ne_zero hd) e f
    generalize quotient p c e d f = result at h hvalue hstands
    obtain ⟨q, g⟩ := result
    simp only at h hvalue hstands
    refine ⟨_, _, _, w, h, by rw [denoted_div, hvalue], ?_, hstands⟩
    have hunit : (0 : ℚ) < 10 ^ g := zpow_pos (by norm_num) g
    rw [← mul_nonneg_iff_of_pos_right hunit, hvalue]
    positivity

/-- A number that fits has no place for digits below those of a coefficient that stands for it. -/
theorem eq_of_stands (hdigits : 0 < p.digits) {s : Bool} {q : ℕ} {w : ℚ} {g : ℤ} (hw : 0 ≤ w)
    (hstands : (q : ℚ) = w ∨ p.StandsFor q w) (hfits : p.Fits (signed s 1 * (w * 10 ^ g))) :
    (q : ℚ) = w := by
  refine hstands.resolve_right fun hstands => ?_
  have hunit : (0 : ℚ) < 10 ^ g := zpow_pos (by norm_num) g
  obtain ⟨n, k, hn, -, hform⟩ := hfits
  have hlarge := Precision.pow_count_le_of_stands (Or.inr hstands) hdigits hstands.long
  have hmagnitude : w * 10 ^ g = |(n : ℚ)| * 10 ^ k := by
    have habs := congrArg abs hform
    rwa [abs_mul, abs_signed_one, one_mul, abs_mul, abs_mul, abs_of_nonneg hw, abs_of_pos hunit,
      abs_of_pos (zpow_pos (by norm_num : (0 : ℚ) < 10) k)] at habs
  have hvalue : w = |n| * 10 ^ (k - g) := by
    rw [zpow_sub₀ (by norm_num), mul_div_assoc', eq_div_iff hunit.ne', hmagnitude, Int.cast_abs]
  have hn' : ((|n| : ℤ) : ℚ) < 10 ^ p.digits := by exact_mod_cast hn
  have hpos : 0 < k - g := by
    by_contra hle
    have := zpow_le_one_of_nonpos₀ (by norm_num : (1 : ℚ) ≤ 10) (not_lt.mp hle)
    have : ((|n| : ℤ) : ℚ) * 10 ^ (k - g) ≤ ((|n| : ℤ) : ℚ) * 1 := by gcongr
    linarith
  obtain ⟨j, hj⟩ := Int.eq_ofNat_of_zero_le hpos.le
  apply hstands.between (|n| * 10 ^ j)
  rw [hvalue, hj, zpow_natCast]
  push_cast
  rfl

/-- A quotient is the fraction itself if that fits. -/
theorem div_fits (hdigits : 0 < p.digits) {x y z : Decimal} {u v : ℚ} (hx : x.toRat? = some u)
    (hy : y.toRat? = some v) (hv : v ≠ 0) (hfits : p.Fits (u / v)) (h : div p x y = .ok z) :
    z.toRat? = some (u / v) := by
  obtain ⟨s, q, g, w, hround, hfraction, hw, hstands⟩ := div_eq_round hx hy hv h
  rw [hfraction] at hfits ⊢
  have hexact := eq_of_stands hdigits hw hstands hfits
  rw [← hexact, ← denoted_eq] at hfits ⊢
  exact hfits.round hdigits hround

/-- A quotient is the number nearest to the fraction, up to half a unit in its last place, and
it is the fraction itself if that fits. -/
theorem div_near (hdigits : 0 < p.digits) {x y z : Decimal} {u v : ℚ} (hx : x.toRat? = some u)
    (hy : y.toRat? = some v) (hv : v ≠ 0) (hnormal : u ≠ 0 → 10 ^ p.minExponent ≤ |u / v|)
    (h : div p x y = .ok z) :
    ∃ w, z.toRat? = some w ∧ 2 * 10 ^ (p.digits - 1) * |w - u / v| ≤ |u / v| ∧
      (p.Fits (u / v) → w = u / v) := by
  by_cases hu : u = 0
  · have hfits : p.Fits (u / v) := ⟨0, p.tiny, by positivity, le_rfl, by simp [hu]⟩
    exact ⟨u / v, div_fits hdigits hx hy hv hfits h, by simp, fun _ => rfl⟩
  obtain ⟨s, q, g, y, hround, hfraction, hy0, hstands⟩ := div_eq_round hx hy hv h
  have hunit : (0 : ℚ) < 10 ^ g := zpow_pos (by norm_num) g
  have habs : |u / v| = y * 10 ^ g := by
    rw [hfraction, abs_mul, abs_signed_one, one_mul, abs_of_nonneg (mul_nonneg hy0 hunit.le)]
  have hbelow : y < 10 ^ Digits.count q := by
    rcases hstands with hexact | hstands
    · rw [← hexact]
      exact_mod_cast Digits.lt_pow_count q
    · have hsucc : (q : ℚ) + 1 ≤ 10 ^ Digits.count q := by
        exact_mod_cast Nat.succ_le_of_lt (Digits.lt_pow_count q)
      have hne := hstands.between (10 ^ Digits.count q)
      push_cast at hne
      have := (abs_le.mp hstands.near).1
      exact lt_of_le_of_ne (by linarith) hne
  have hplace : p.tiny + p.digits ≤ g + Digits.count q := by
    have hlow := hnormal hu
    rw [habs] at hlow
    have hlt : (10 : ℚ) ^ p.minExponent < 10 ^ (Digits.count q + g) := by
      rw [zpow_add₀ (by norm_num), zpow_natCast]
      exact hlow.trans_lt (mul_lt_mul_of_pos_right hbelow hunit)
    have := (zpow_lt_zpow_iff_right₀ (by norm_num)).mp hlt
    unfold Precision.tiny
    omega
  obtain ⟨w, hw, hnear⟩ := Precision.round_near hdigits hstands hplace hround
  refine ⟨w, hw, ?_, fun hfits => ?_⟩
  · rw [habs, hfraction]
    exact hnear
  · rw [div_fits hdigits hx hy hv hfits h] at hw
    exact (Option.some.inj hw).symm

/-- A quotient is zero exactly if the fraction is half the smallest positive result, or less. -/
theorem div_eq_zero_iff (hdigits : 0 < p.digits) {x y z : Decimal} {u v : ℚ}
    (hx : x.toRat? = some u) (hy : y.toRat? = some v) (hv : v ≠ 0) (h : div p x y = .ok z) :
    z.toRat? = some 0 ↔ 2 * |u / v| ≤ 10 ^ p.tiny := by
  obtain ⟨s, q, g, w, hround, hfraction, hw, hstands⟩ := div_eq_round hx hy hv h
  have hunit : (0 : ℚ) < 10 ^ g := zpow_pos (by norm_num) g
  rw [Precision.round_eq_zero_iff hdigits hstands hround, hfraction, abs_mul, abs_signed_one,
    one_mul, abs_of_nonneg (mul_nonneg hw hunit.le)]

theorem floor_toRat {x : Decimal} {w : ℚ} (h : x.toRat? = some w) :
    x.floor.toRat? = some (⌊w⌋ : ℚ) := by
  obtain ⟨s, c, e, rfl, rfl⟩ := exists_finite h
  rw [floor]
  by_cases he : 0 ≤ e
  · obtain ⟨k, rfl⟩ := Int.eq_ofNat_of_zero_le he
    have hinteger : denoted s c (k : ℤ) = (signed s c * 10 ^ k : ℤ) := by
      rw [denoted, zpow_natCast]
      push_cast
      rfl
    rw [if_pos he, toRat?_finite, hinteger, Int.floor_intCast]
  · obtain ⟨k, rfl⟩ := Int.exists_eq_neg_ofNat (not_le.mp he).le
    rw [if_neg he]
    simp only [neg_neg, Int.toNat_natCast, Nat.pow_eq]
    -- A coefficient with fewer digits than places is all fraction.
    have hparts : (if Digits.count c < k then (0, c == 0) else (c / 10 ^ k, c % 10 ^ k == 0)) =
        (c / 10 ^ k, c % 10 ^ k == 0) := by
      split
      · next hshort =>
        have hlt : c < 10 ^ k :=
          (Digits.lt_pow_count c).trans (Nat.pow_lt_pow_right (by decide) hshort)
        rw [Nat.div_eq_of_lt hlt, Nat.mod_eq_of_lt hlt]
      · rfl
    rw [hparts]
    generalize hm : 10 ^ k = m
    have hpos : (0 : ℚ) < m := by
      rw [← hm]
      positivity
    have hsplit := Nat.div_add_mod' c m
    have hrest : c % m < m := Nat.mod_lt c (by exact_mod_cast hpos)
    have hvalue : denoted s c (-(k : ℤ)) = (signed s c : ℤ) / m := by
      rw [denoted, zpow_neg, zpow_natCast, ← hm, div_eq_mul_inv]
      push_cast
      rfl
    rw [toRat?_finite, denoted, zpow_zero, mul_one]
    congr 2
    symm
    rw [Int.floor_eq_iff, hvalue, le_div_iff₀ hpos, div_lt_iff₀ hpos]
    generalize c / m = whole, c % m = rest at hsplit hrest
    norm_cast
    zify at hsplit hrest
    rcases Nat.eq_zero_or_pos rest with hexact | hinexact
    · rw [hexact, Nat.cast_zero, add_zero] at hsplit
      rw [hexact, Nat.cast_zero] at hrest
      cases s <;> simp [signed, hexact] <;> constructor <;> linarith
    · have hne : (rest == 0) = false := by
        rw [beq_eq_false_iff_ne]
        exact hinexact.ne'
      zify at hinexact
      cases s <;> simp [signed, hne] <;> constructor <;> linarith

theorem mul_fits (hdigits : 0 < p.digits) {x y z : Decimal} {u v : ℚ} (hx : x.toRat? = some u)
    (hy : y.toRat? = some v) (hfits : p.Fits (u * v)) (h : mul p x y = .ok z) :
    z.toRat? = some (u * v) := by
  obtain ⟨s, c, e, rfl, rfl⟩ := exists_finite hx
  obtain ⟨t, d, f, rfl, rfl⟩ := exists_finite hy
  rw [← denoted_mul] at hfits ⊢
  exact hfits.round hdigits h

theorem flip_toRat {x : Decimal} {u : ℚ} (h : x.toRat? = some u) : x.flip.toRat? = some (-u) := by
  obtain ⟨s, c, e, rfl, rfl⟩ := exists_finite h
  rw [flip, toRat?_finite, denoted_not]

theorem pow_count_mul_le {c : ℕ} (hc : 0 < c) (e : ℤ) :
    (10 : ℚ) ^ ((Digits.count c - 1 : ℕ) + e) ≤ c * 10 ^ e := by
  have hunit : (0 : ℚ) < 10 ^ e := zpow_pos (by norm_num) e
  rw [zpow_add₀ (by norm_num), zpow_natCast]
  exact mul_le_mul_of_nonneg_right (by exact_mod_cast Digits.pow_count_le hc) hunit.le

theorem lt_pow_add_of_lt {c k : ℕ} (h : c < 10 ^ k) (e : ℤ) :
    (c : ℚ) * 10 ^ e < 10 ^ (k + e) := by
  have hunit : (0 : ℚ) < 10 ^ e := zpow_pos (by norm_num) e
  rw [zpow_add₀ (by norm_num), zpow_natCast]
  exact mul_lt_mul_of_pos_right (by exact_mod_cast h) hunit

/-- Two numbers of which no digit lies below a place, and whose digits from that place on fit the
precision, are aligned as they are. -/
theorem align_value {c d : ℕ} {e f g : ℤ} {m n : ℕ} (hle : f ≤ e)
    (hc : (c : ℚ) * 10 ^ e = m * 10 ^ g) (hm : m < 10 ^ p.digits)
    (hd : (d : ℚ) * 10 ^ f = n * 10 ^ g) {c' d' : ℕ} {k : ℤ}
    (h : align p c e d f = (c', d', k)) :
    (c' : ℚ) * 10 ^ k = c * 10 ^ e ∧ (d' : ℚ) * 10 ^ k = d * 10 ^ f := by
  have hten : (1 : ℚ) < 10 := by norm_num
  have hscale : ∀ {k : ℤ}, k ≤ e →
      ((c * 10 ^ (e - k).toNat : ℕ) : ℚ) * 10 ^ k = c * 10 ^ e := by
    intro k hk
    obtain ⟨j, rfl⟩ := Int.le.dest hk
    rw [add_sub_cancel_left, Int.toNat_natCast, zpow_add₀ (by norm_num), zpow_natCast]
    push_cast
    ring
  unfold align at h
  simp only [Nat.pow_eq] at h
  by_cases hzero : c = 0
  · rw [if_pos hzero] at h
    cases h
    simp [hzero]
  rw [if_neg hzero] at h
  set low := e + min (-1) ((Digits.count c : ℤ) - p.digits - 2) with hlow
  by_cases hnone : d = 0
  · rw [if_pos hnone] at h
    cases h
    exact ⟨hscale (by omega), by simp [hnone]⟩
  rw [if_neg hnone] at h
  -- The first digit of a number that is too far below would itself lie below the place.
  have hfirst : (Digits.count c - 1 : ℕ) + e < p.digits + g := by
    rw [← zpow_lt_zpow_iff_right₀ hten]
    calc (10 : ℚ) ^ ((Digits.count c - 1 : ℕ) + e)
        ≤ c * 10 ^ e := pow_count_mul_le (Nat.pos_of_ne_zero hzero) e
      _ = m * 10 ^ g := hc
      _ < 10 ^ (p.digits + g) := lt_pow_add_of_lt hm g
  have hsecond : g < Digits.count d + f := by
    rw [← zpow_lt_zpow_iff_right₀ hten]
    have hunit := zpow_pos (zero_lt_one.trans hten) g
    have hn : n ≠ 0 := by
      rintro rfl
      have := zpow_ne_zero f (zero_lt_one.trans hten).ne'
      simp_all
    calc (10 : ℚ) ^ g ≤ n * 10 ^ g :=
          le_mul_of_one_le_left hunit.le (by exact_mod_cast Nat.pos_of_ne_zero hn)
      _ = d * 10 ^ f := hd.symm
      _ < 10 ^ (Digits.count d + f) := lt_pow_add_of_lt (Digits.lt_pow_count d) f
  have hcount := Digits.count_pos c
  rw [if_neg (show ¬ (Digits.count d + f - 1 < low) by omega)] at h
  cases h
  exact ⟨hscale hle, rfl⟩

/-- Numbers at a common place, the digits of which from that place on fit the precision, as
those of their sum do, are added exactly. -/
theorem add_fits (hdigits : 0 < p.digits) {x y z : Decimal} {u v : ℚ} {m n g : ℤ}
    (hx : x.toRat? = some u) (hy : y.toRat? = some v) (hu : u = m * 10 ^ g) (hv : v = n * 10 ^ g)
    (hm : |m| < 10 ^ p.digits) (hn : |n| < 10 ^ p.digits) (hfits : p.Fits (u + v))
    (h : add p x y = .ok z) : z.toRat? = some (u + v) := by
  obtain ⟨s, c, e, rfl, rfl⟩ := exists_finite hx
  obtain ⟨t, d, f, rfl, rfl⟩ := exists_finite hy
  have hplace : ∀ {s : Bool} {c : ℕ} {e n : ℤ}, denoted s c e = n * 10 ^ g →
      (c : ℚ) * 10 ^ e = n.natAbs * 10 ^ g := by
    intro s c e n hvalue
    have hunit : (0 : ℚ) < 10 ^ g := zpow_pos (by norm_num) g
    rw [← abs_denoted s, hvalue, abs_mul, abs_of_pos hunit, ← Int.cast_abs, Int.abs_eq_natAbs,
      Int.cast_natCast]
  obtain ⟨c', d', k, hform, hc, hd⟩ : ∃ c' d' k,
      (if f ≤ e then align p c e d f else
        ((align p d f c e).2.1, (align p d f c e).1, (align p d f c e).2.2)) = (c', d', k) ∧
        (c' : ℚ) * 10 ^ k = c * 10 ^ e ∧ (d' : ℚ) * 10 ^ k = d * 10 ^ f := by
    by_cases hle : f ≤ e
    · rw [if_pos hle]
      obtain ⟨h₁, h₂⟩ := align_value hle (hplace hu) (by zify; exact hm) (hplace hv) rfl
      exact ⟨_, _, _, rfl, h₁, h₂⟩
    · rw [if_neg hle]
      obtain ⟨h₁, h₂⟩ :=
        align_value (not_le.mp hle).le (hplace hv) (by zify; exact hn) (hplace hu) rfl
      exact ⟨_, _, _, rfl, h₂, h₁⟩
  have hsum : ((signed s c' + signed t d' : ℤ) : ℚ) * 10 ^ k =
      denoted s c e + denoted t d f := by
    rw [denoted_eq s c, denoted_eq t d, ← hc, ← hd, ← denoted_eq, ← denoted_eq, denoted, denoted]
    push_cast
    ring
  simp only [add, hform] at h
  split at h
  · next hzero =>
    have hround := Precision.round_toRat hdigits h
    rw [Digits.divNearest_eq_zero (by positivity), denoted_zero] at hround
    rw [hround, ← hsum, hzero, Int.cast_zero, zero_mul]
  · rw [← hsum, ← denoted_ofInt] at hfits ⊢
    exact hfits.round hdigits h

end Decimal

end TowerLisp
