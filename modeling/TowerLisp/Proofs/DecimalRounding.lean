import Mathlib.Algebra.Order.Field.Power
import Mathlib.Algebra.Order.Field.Rat
import Mathlib.Data.Rat.Lemmas
import Mathlib.Tactic.FieldSimp
import Mathlib.Tactic.Linarith
import Mathlib.Tactic.Ring
import TowerLisp.Decimal.Basic

/-!
How decimals are rounded. The rational number that a finite decimal denotes is kept by
rounding if it fits the precision, and it is otherwise moved by half a unit in the last place
that is kept, at most.
-/

namespace TowerLisp

namespace Digits

theorem countBelow_pos (k n : ℕ) : 0 < countBelow k n := by
  induction k generalizing n with
  | zero => exact Nat.one_pos
  | succ k ih =>
    rw [countBelow]
    split
    · exact ih n
    · exact Nat.add_pos_right _ (ih _)

/-- A count of digits is exact: a power of ten with that many zeros is above the number, and
one with a zero less is not. -/
theorem countBelow_spec {k n : ℕ} (h : n < 10 ^ 2 ^ k) :
    n < 10 ^ countBelow k n ∧ (0 < n → 10 ^ (countBelow k n - 1) ≤ n) := by
  induction k generalizing n with
  | zero => exact ⟨by simpa [countBelow] using h, fun hpos => Nat.succ_le_of_lt hpos⟩
  | succ k ih =>
    rw [countBelow, Nat.pow_eq, Nat.pow_eq]
    by_cases hlow : n < 10 ^ 2 ^ k
    · rw [if_pos hlow]
      exact ih hlow
    · rw [if_neg hlow]
      have hquotient : n / 10 ^ 2 ^ k < 10 ^ 2 ^ k := by
        rw [Nat.div_lt_iff_lt_mul (by positivity), ← pow_add, ← two_mul, ← pow_succ']
        exact h
      obtain ⟨hlt, hle⟩ := ih hquotient
      have hpos : 0 < n / 10 ^ 2 ^ k := Nat.div_pos (by omega) (by positivity)
      have hcount := countBelow_pos k (n / 10 ^ 2 ^ k)
      refine ⟨?_, fun _ => ?_⟩
      · rw [pow_add, mul_comm]
        exact (Nat.div_lt_iff_lt_mul (by positivity)).mp hlt
      · rw [Nat.add_sub_assoc hcount, pow_add, mul_comm]
        exact (Nat.le_div_iff_mul_le (by positivity)).mp (hle hpos)

theorem count_spec (n : ℕ) : n < 10 ^ count n ∧ (0 < n → 10 ^ (count n - 1) ≤ n) := by
  apply countBelow_spec
  calc n < 2 ^ (n.log2 + 1) := Nat.lt_log2_self
    _ ≤ 10 ^ (n.log2 + 1) := Nat.pow_le_pow_left (by decide) _
    _ ≤ 10 ^ 2 ^ ((n.log2 + 1).log2 + 1) :=
      Nat.pow_le_pow_right (by decide) Nat.lt_log2_self.le

theorem count_pos (n : ℕ) : 0 < count n :=
  countBelow_pos _ n

theorem lt_pow_count (n : ℕ) : n < 10 ^ count n :=
  (count_spec n).1

theorem pow_count_le {n : ℕ} (h : 0 < n) : 10 ^ (count n - 1) ≤ n :=
  (count_spec n).2 h

theorem count_le {n k : ℕ} (hk : 0 < k) (h : n < 10 ^ k) : count n ≤ k := by
  rcases Nat.eq_zero_or_pos n with rfl | hpos
  · exact hk
  · have := (Nat.pow_lt_pow_iff_right (by decide)).mp ((pow_count_le hpos).trans_lt h)
    omega

theorem lt_count {n k : ℕ} (h : 10 ^ k ≤ n) : k < count n :=
  (Nat.pow_lt_pow_iff_right (by decide)).mp (h.trans_lt (lt_pow_count n))

/-- The nearest quotient is at most half a divisor away. -/
theorem divNearest_near (n : ℕ) {d : ℕ} (hd : 0 < d) :
    2 * ((divNearest n d * d : ℕ) - n : ℤ) ≤ d ∧ 2 * (n - (divNearest n d * d : ℕ) : ℤ) ≤ d := by
  have hsplit := Nat.div_add_mod n d
  have hrest := Nat.mod_lt n hd
  unfold divNearest
  simp only [Bool.or_eq_true, Bool.and_eq_true, decide_eq_true_eq, beq_iff_eq]
  rw [mul_comm] at hsplit
  split
  · rw [Nat.add_mul, one_mul]
    omega
  · omega

theorem divNearest_of_dvd {n d : ℕ} (hd : 0 < d) (h : d ∣ n) : divNearest n d = n / d := by
  simp [divNearest, Nat.mod_eq_zero_of_dvd h, hd.ne]

/-- Half a power of ten is a multiple of five, so that other numbers are not halfway. -/
theorem divNearest_nearer {n k : ℕ} (hk : 0 < k) (h5 : n % 5 ≠ 0) :
    2 * ((divNearest n (10 ^ k) * 10 ^ k : ℕ) - n : ℤ) + 2 ≤ (10 ^ k : ℕ) ∧
      2 * (n - (divNearest n (10 ^ k) * 10 ^ k : ℕ) : ℤ) + 2 ≤ (10 ^ k : ℕ) := by
  have hnear := divNearest_near n (d := 10 ^ k) (by positivity)
  obtain ⟨j, rfl⟩ := Nat.exists_eq_succ_of_ne_zero hk.ne'
  rw [Nat.succ_eq_add_one, pow_succ, ← mul_assoc] at hnear ⊢
  omega

theorem divNearest_one (n : ℕ) : divNearest n 1 = n := by
  simp [divNearest_of_dvd Nat.one_pos (one_dvd n)]

/-- What is below half a divisor goes to zero. -/
theorem divNearest_eq_zero {n d : ℕ} (h : 2 * n < d) : divNearest n d = 0 := by
  have hlt : n < d := by omega
  simp only [divNearest, Nat.div_eq_of_lt hlt, Nat.mod_eq_of_lt hlt]
  simp
  omega

theorem divNearest_eq_zero_iff {n d : ℕ} (hd : 0 < d) : divNearest n d = 0 ↔ 2 * n ≤ d := by
  constructor
  · intro h
    have hnear := (divNearest_near n hd).2
    rw [h, zero_mul] at hnear
    omega
  · intro h
    by_cases hlt : 2 * n < d
    · exact divNearest_eq_zero hlt
    · -- A half goes to zero, which is even.
      obtain rfl : d = 2 * n := by omega
      have hn : n < 2 * n := by omega
      simp [divNearest, Nat.div_eq_of_lt hn, Nat.mod_eq_of_lt hn]

theorem divNearest_le {n d k : ℕ} (hd : 0 < d) (h : n < k * d) : divNearest n d ≤ k := by
  have hnear := (divNearest_near n hd).1
  by_contra hlt
  have hmul : (k + 1) * d ≤ divNearest n d * d := Nat.mul_le_mul_right d (by omega)
  rw [add_mul, one_mul] at hmul
  omega

end Digits

namespace Decimal

open Binary64 (signed)

/-- The number `± c * 10 ^ e`. -/
def denoted (s : Bool) (c : ℕ) (e : ℤ) : ℚ :=
  signed s c * 10 ^ e

theorem toRat?_finite (s : Bool) (c : ℕ) (e : ℤ) :
    (finite s c e).toRat? = some (denoted s c e) := by
  rw [toRat?, denoted, Nat.pow_eq, Nat.pow_eq]
  by_cases he : e < 0
  · rw [if_pos he]
    obtain ⟨k, rfl⟩ := Int.exists_eq_neg_ofNat he.le
    simp [Rat.mkRat_eq_div, zpow_neg, div_eq_mul_inv]
  · obtain ⟨k, rfl⟩ := Int.eq_ofNat_of_zero_le (not_lt.mp he)
    simp [Rat.mkRat_eq_div]

theorem exists_finite {x : Decimal} {q : ℚ} (h : x.toRat? = some q) :
    ∃ s c e, x = finite s c e ∧ q = denoted s c e := by
  cases x with
  | finite s c e =>
    rw [toRat?_finite] at h
    exact ⟨s, c, e, rfl, (Option.some.inj h).symm⟩
  | infinite s => cases h
  | nan m => cases h

@[simp] theorem denoted_zero (s : Bool) (e : ℤ) : denoted s 0 e = 0 := by
  cases s <;> simp [denoted, signed]

theorem abs_denoted (s : Bool) (c : ℕ) (e : ℤ) : |denoted s c e| = c * 10 ^ e := by
  cases s <;> simp [denoted, signed, abs_mul, abs_of_pos (zpow_pos (by norm_num : (0 : ℚ) < 10) e)]

theorem denoted_not (s : Bool) (c : ℕ) (e : ℤ) : denoted (!s) c e = -denoted s c e := by
  cases s <;> simp [denoted, signed]

theorem denoted_eq_zero_iff {s : Bool} {c : ℕ} {e : ℤ} : denoted s c e = 0 ↔ c = 0 := by
  rw [← abs_eq_zero, abs_denoted, mul_eq_zero, Nat.cast_eq_zero]
  exact or_iff_left (zpow_ne_zero _ (by norm_num))

/-- Zeros at the end of a coefficient can be moved to the exponent. -/
theorem denoted_shift (s : Bool) (c k : ℕ) (e : ℤ) :
    denoted s (c * 10 ^ k) e = denoted s c (e + k) := by
  rw [denoted, denoted, zpow_add₀ (by norm_num), zpow_natCast]
  cases s <;> simp [signed] <;> ring

/-- Of two coefficients of one number, the one at the smaller exponent has more zeros. -/
theorem eq_mul_pow_of_le {c m : ℕ} {e g : ℤ} (hle : e ≤ g)
    (h : (c : ℚ) * 10 ^ e = m * 10 ^ g) : c = m * 10 ^ (g - e).toNat := by
  obtain ⟨k, rfl⟩ := Int.le.dest hle
  rw [zpow_add₀ (by norm_num), mul_comm ((10 : ℚ) ^ e), ← mul_assoc] at h
  have hcoefficient := mul_right_cancel₀ (zpow_ne_zero e (by norm_num)) h
  rw [add_sub_cancel_left, Int.toNat_natCast]
  exact_mod_cast hcoefficient

theorem denoted_eq (s : Bool) (c : ℕ) (e : ℤ) : denoted s c e = signed s 1 * (c * 10 ^ e) := by
  cases s <;> simp [denoted, signed]

theorem denoted_ofInt (n e : ℤ) : denoted (n < 0) n.natAbs e = n * 10 ^ e := by
  have hsigned : signed (n < 0) n.natAbs = n := by
    unfold signed
    split
    · next hn =>
      have := of_decide_eq_true hn
      omega
    · next hn =>
      have := of_decide_eq_false (Bool.not_eq_true _ ▸ hn)
      omega
  rw [denoted, hsigned]

theorem denoted_mul (s t : Bool) (c d : ℕ) (e f : ℤ) :
    denoted (s != t) (c * d) (e + f) = denoted s c e * denoted t d f := by
  rw [denoted, denoted, denoted, zpow_add₀ (by norm_num)]
  cases s <;> cases t <;> simp [signed] <;> ring

theorem denoted_div (s t : Bool) (c d : ℕ) (e f : ℤ) :
    denoted s c e / denoted t d f = signed (s != t) 1 * (c * 10 ^ e / (d * 10 ^ f)) := by
  rw [denoted_eq s, denoted_eq t]
  cases s <;> cases t <;> simp [signed, neg_div, div_neg]

theorem abs_signed_one (s : Bool) : |(signed s 1 : ℚ)| = 1 := by
  cases s <;> simp [signed]

end Decimal

namespace Precision

open Decimal (denoted)

variable {p : Precision} {s : Bool} {c : ℕ} {e : ℤ} {x : Decimal}

/-- How many digits are cut off at a precision: those that are too many, or those that are
below the smallest exponent. -/
def cut (p : Precision) (c : ℕ) (e : ℤ) : ℕ :=
  max (Digits.count c - p.digits) (p.tiny - e).toNat

/-- What rounding gives: the digits that are kept go to the nearest integer. -/
theorem round_toRat (hdigits : 0 < p.digits) (h : p.round s c e = .ok x) :
    x.toRat? = some (denoted s (Digits.divNearest c (10 ^ p.cut c e)) (e + p.cut c e)) := by
  unfold round at h
  simp only [Nat.pow_eq] at h
  have hcount := Digits.count_pos c
  split at h
  · next hzero =>
    subst hzero
    cases h
    rw [Decimal.toRat?_finite, Digits.divNearest_eq_zero (by positivity), Decimal.denoted_zero,
      Decimal.denoted_zero]
  have htiny : p.tiny = p.minExponent - (p.digits - 1 : ℕ) := rfl
  split at h
  · cases h
  split at h
  · next hzero hmax hmin =>
    split at h
    · next htoo =>
      have hcut : p.cut c e = (p.tiny - e).toNat := by
        unfold cut
        omega
      have hexponent : e + p.cut c e = p.tiny := by omega
      split at h
      · next hnone =>
        cases h
        have hsmall : 2 * c < 10 ^ p.cut c e := by
          have hpow : 10 ^ (Digits.count c + 1) ≤ 10 ^ p.cut c e :=
            Nat.pow_le_pow_right (by decide) (by omega)
          have := Digits.lt_pow_count c
          rw [pow_succ] at hpow
          omega
        rw [Decimal.toRat?_finite, Digits.divNearest_eq_zero hsmall, Decimal.denoted_zero,
          Decimal.denoted_zero]
      · cases h
        rw [Decimal.toRat?_finite, hexponent, hcut]
    · next htoo =>
      have hcut : p.cut c e = 0 := by
        unfold cut
        omega
      cases h
      rw [Decimal.toRat?_finite, hcut, pow_zero, Digits.divNearest_one, Nat.cast_zero, add_zero]
  · next hzero hmax hmin =>
    have hcut : p.cut c e = Digits.count c - p.digits := by
      unfold cut
      omega
    split at h
    · next hfew =>
      have hnone : p.cut c e = 0 := by omega
      cases h
      rw [Decimal.toRat?_finite, hnone, pow_zero, Digits.divNearest_one, Nat.cast_zero, add_zero]
    · rw [← hcut] at h
      split at h
      · next hcarry =>
        -- A carry past the first digit leaves a one, a place further up.
        split at h
        · cases h
        · cases h
          have hsplit : 10 ^ p.digits = 10 ^ (p.digits - 1) * 10 ^ 1 := by
            rw [← pow_add, Nat.sub_add_cancel hdigits]
          rw [Decimal.toRat?_finite, hcarry, hsplit, Decimal.denoted_shift, Nat.cast_one]
      · cases h
        rw [Decimal.toRat?_finite]

/-- The numbers that a precision has room for. -/
def Fits (p : Precision) (q : ℚ) : Prop :=
  ∃ (n : ℤ) (g : ℤ), |n| < 10 ^ p.digits ∧ p.tiny ≤ g ∧ q = n * 10 ^ g

/-- The digits that are cut off a number which fits are zeros. -/
theorem Fits.cut_dvd (hdigits : 0 < p.digits) (hfits : p.Fits (denoted s c e)) :
    10 ^ p.cut c e ∣ c := by
  obtain ⟨n, g, hn, hg, hvalue⟩ := hfits
  have hsize : n.natAbs < 10 ^ p.digits := by
    zify
    exact hn
  have habs : (c : ℚ) * 10 ^ e = n.natAbs * 10 ^ g := by
    have hunit : (0 : ℚ) < 10 ^ g := zpow_pos (by norm_num) g
    rw [← Decimal.abs_denoted s, hvalue, abs_mul, abs_of_pos hunit, ← Int.cast_abs,
      Int.abs_eq_natAbs, Int.cast_natCast]
  have htiny : p.tiny - e ≤ g - e := by omega
  rcases le_total g e with hle | hle
  · -- All digits fit, so that none is cut off.
    have hcoefficient := Decimal.eq_mul_pow_of_le hle habs.symm
    have hcount : Digits.count c ≤ p.digits := by
      refine Digits.count_le hdigits (lt_of_le_of_lt ?_ hsize)
      rw [hcoefficient]
      exact Nat.le_mul_of_pos_right c (by positivity)
    have hnone : p.cut c e = 0 := by
      unfold cut
      omega
    rw [hnone, pow_zero]
    exact one_dvd c
  · have hcoefficient := Decimal.eq_mul_pow_of_le hle habs
    have hcount : Digits.count c ≤ p.digits + (g - e).toNat := by
      refine Digits.count_le (by omega) ?_
      rw [hcoefficient, pow_add]
      exact Nat.mul_lt_mul_of_pos_right hsize (by positivity)
    have hcut : p.cut c e ≤ (g - e).toNat := by
      unfold cut
      omega
    calc 10 ^ p.cut c e ∣ 10 ^ (g - e).toNat := pow_dvd_pow 10 hcut
      _ ∣ n.natAbs * 10 ^ (g - e).toNat := dvd_mul_left _ _
      _ = c := hcoefficient.symm

theorem Fits.round (hdigits : 0 < p.digits) (hfits : p.Fits (denoted s c e))
    (h : p.round s c e = .ok x) : x.toRat? = some (denoted s c e) := by
  have hdvd := hfits.cut_dvd hdigits
  rw [round_toRat hdigits h, Digits.divNearest_of_dvd (by positivity) hdvd,
    ← Decimal.denoted_shift, Nat.div_mul_cancel hdvd]

/-- A coefficient that stands for a number between integers: it has more digits than are kept,
is a neighbour of the number, and does not end in 0 or 5, so that it is not halfway between two
results. -/
structure StandsFor (p : Precision) (c : ℕ) (y : ℚ) : Prop where
  long : 10 ^ p.digits ≤ c
  near : |(c : ℚ) - y| ≤ 1
  sticky : c % 5 ≠ 0
  between : ∀ n : ℤ, y ≠ n

theorem pow_count_le_of_stands {k : ℕ} {y : ℚ} (hstands : (c : ℚ) = y ∨ p.StandsFor c y)
    (hk : 0 < k) (h : 10 ^ k ≤ c) : (10 : ℚ) ^ k ≤ y := by
  rcases hstands with heq | hstands
  · rw [← heq]
    exact_mod_cast h
  · -- The coefficient is no power of ten, and the number is at most one below it.
    have hne : 10 ^ k ≠ c := by
      rintro rfl
      obtain ⟨j, rfl⟩ := Nat.exists_eq_succ_of_ne_zero hk.ne'
      have := hstands.sticky
      rw [Nat.succ_eq_add_one, pow_succ] at this
      omega
    have hlt : (10 ^ k + 1 : ℚ) ≤ c := by exact_mod_cast Nat.succ_le_of_lt (lt_of_le_of_ne h hne)
    have := (abs_le.mp hstands.near).2
    linarith

/-- Rounding moves a number by half a unit in the last place, at most, if its digits are above
the smallest exponent. -/
theorem round_near {y : ℚ} (hdigits : 0 < p.digits) (hstands : (c : ℚ) = y ∨ p.StandsFor c y)
    (hnormal : p.tiny + p.digits ≤ e + Digits.count c) (h : p.round s c e = .ok x) :
    ∃ w, x.toRat? = some w ∧
      2 * 10 ^ (p.digits - 1) * |w - Binary64.signed s 1 * (y * 10 ^ e)| ≤ y * 10 ^ e := by
  refine ⟨_, round_toRat hdigits h, ?_⟩
  have hcut : p.cut c e = Digits.count c - p.digits := by
    unfold cut
    omega
  generalize p.cut c e = k at hcut
  set m := Digits.divNearest c (10 ^ k) with hm
  have hunit : (0 : ℚ) < 10 ^ e := zpow_pos (by norm_num) e
  have hmoved : |denoted s m (e + k) - Binary64.signed s 1 * (y * 10 ^ e)| =
      |((m * 10 ^ k : ℕ) : ℚ) - y| * 10 ^ e := by
    rw [← Decimal.denoted_shift, Decimal.denoted_eq, ← mul_sub, ← sub_mul, abs_mul,
      Decimal.abs_signed_one, one_mul, abs_mul, abs_of_pos hunit]
  have hkept : 2 * 10 ^ (p.digits - 1) * |((m * 10 ^ k : ℕ) : ℚ) - y| ≤ y := by
    rcases Nat.eq_zero_or_pos k with rfl | hk
    · have heq : (c : ℚ) = y := by
        refine hstands.resolve_right fun hlong => ?_
        have := Digits.lt_count hlong.long
        omega
      rw [hm, pow_zero, Digits.divNearest_one, mul_one, heq, sub_self, abs_zero, mul_zero, ← heq]
      positivity
    · have hc : 0 < c := by
        refine Nat.pos_of_ne_zero fun hzero => ?_
        have := Digits.count_le Nat.one_pos (n := 0) (by decide)
        rw [hzero] at hcut
        omega
      have hhalf : 2 * |((m * 10 ^ k : ℕ) : ℚ) - y| ≤ 10 ^ k := by
        rcases hstands with rfl | hstands
        · have hnear := Digits.divNearest_near c (d := 10 ^ k) (by positivity)
          rw [← hm] at hnear
          obtain ⟨h₁, h₂⟩ : 2 * (((m * 10 ^ k : ℕ) : ℚ) - c) ≤ 10 ^ k ∧
              2 * ((c : ℚ) - (m * 10 ^ k : ℕ)) ≤ 10 ^ k := by exact_mod_cast hnear
          rw [← abs_two, ← abs_mul, abs_le]
          constructor <;> linarith
        · have hnear := Digits.divNearest_nearer hk hstands.sticky
          rw [← hm] at hnear
          obtain ⟨h₁, h₂⟩ : 2 * (((m * 10 ^ k : ℕ) : ℚ) - c) + 2 ≤ 10 ^ k ∧
              2 * ((c : ℚ) - (m * 10 ^ k : ℕ)) + 2 ≤ 10 ^ k := by exact_mod_cast hnear
          obtain ⟨h₃, h₄⟩ := abs_le.mp hstands.near
          rw [← abs_two, ← abs_mul, abs_le]
          constructor <;> linarith
      have hlarge : (10 : ℚ) ^ (p.digits - 1 + k) ≤ y := by
        refine pow_count_le_of_stands hstands (by omega) ?_
        have hpow := Digits.pow_count_le hc
        rwa [show Digits.count c - 1 = p.digits - 1 + k by omega] at hpow
      calc 2 * 10 ^ (p.digits - 1) * |((m * 10 ^ k : ℕ) : ℚ) - y|
          = 10 ^ (p.digits - 1) * (2 * |((m * 10 ^ k : ℕ) : ℚ) - y|) := by ring
        _ ≤ 10 ^ (p.digits - 1) * 10 ^ k := by gcongr
        _ = 10 ^ (p.digits - 1 + k) := (pow_add _ _ _).symm
        _ ≤ y := hlarge
  rw [hmoved, ← mul_assoc]
  gcongr

/-- Half a power of ten is above a number exactly if it is above what stands for the number. -/
theorem half_le_iff (hdigits : 0 < p.digits) {y : ℚ}
    (hstands : (c : ℚ) = y ∨ p.StandsFor c y) (k : ℕ) :
    2 * c ≤ 10 ^ k ↔ 2 * y ≤ (10 : ℚ) ^ k := by
  obtain rfl | hstands := hstands
  · norm_cast
  have hlarge : 10 ≤ c :=
    (Nat.pow_le_pow_right (by decide) hdigits : 10 ^ 1 ≤ 10 ^ p.digits).trans hstands.long
  obtain ⟨hlow, hhigh⟩ := abs_le.mp hstands.near
  cases k with
  | zero =>
    rw [pow_zero, pow_zero]
    have : (10 : ℚ) ≤ c := by exact_mod_cast hlarge
    exact iff_of_false (by omega) (by linarith)
  | succ k =>
    rw [pow_succ, pow_succ]
    constructor
    · intro h
      have hsticky := hstands.sticky
      have hbelow : c + 1 ≤ 5 * 10 ^ k := by omega
      have : (c : ℚ) + 1 ≤ 5 * 10 ^ k := by exact_mod_cast hbelow
      linarith
    · intro h
      have hne := hstands.between (5 * 10 ^ k)
      push_cast at hne
      have hlt : y < 5 * 10 ^ k := lt_of_le_of_ne (by linarith) hne
      have hbelow : (c : ℚ) < 5 * 10 ^ k + 1 := by linarith
      have hbelow' : c < 5 * 10 ^ k + 1 := by exact_mod_cast hbelow
      omega

/-- Rounding gives zero exactly if the number is half the smallest positive result, or less. -/
theorem round_eq_zero_iff (hdigits : 0 < p.digits) {y : ℚ}
    (hstands : (c : ℚ) = y ∨ p.StandsFor c y) (h : p.round s c e = .ok x) :
    x.toRat? = some 0 ↔ 2 * (y * 10 ^ e) ≤ 10 ^ p.tiny := by
  have hunit : (0 : ℚ) < 10 ^ e := zpow_pos (by norm_num) e
  have hcut : p.cut c e = max (Digits.count c - p.digits) (p.tiny - e).toNat := rfl
  rw [round_toRat hdigits h, Option.some.injEq, Decimal.denoted_eq_zero_iff,
    Digits.divNearest_eq_zero_iff (by positivity)]
  constructor
  · intro hle
    -- Digits that are too many would not be cut off altogether.
    have hsmall : 2 * c ≤ 10 ^ (p.tiny - e).toNat := by
      rcases Nat.eq_zero_or_pos c with rfl | hpos
      · positivity
      have hfirst := Digits.pow_count_le hpos
      have hall : Digits.count c - 1 < p.cut c e := by
        by_contra hfew
        have := Nat.pow_le_pow_right (show 0 < 10 by decide) (not_lt.mp hfew)
        omega
      rwa [show p.cut c e = (p.tiny - e).toNat by omega] at hle
    have hhalf := (half_le_iff hdigits hstands _).mp hsmall
    by_cases hlow : e ≤ p.tiny
    · obtain ⟨k, hk⟩ := Int.le.dest hlow
      rw [← hk, add_sub_cancel_left, Int.toNat_natCast] at hhalf
      rw [← hk, zpow_add₀ (by norm_num), zpow_natCast, mul_comm ((10 : ℚ) ^ e), ← mul_assoc]
      exact mul_le_mul_of_nonneg_right hhalf hunit.le
    · have hzero : c = 0 := by
        rw [Int.toNat_eq_zero.mpr (by omega), pow_zero] at hsmall
        omega
      have hexact : (c : ℚ) = y := hstands.resolve_right fun hstands => by
        have := hstands.long
        have : 0 < 10 ^ p.digits := by positivity
        omega
      rw [← hexact, hzero, Nat.cast_zero, zero_mul, mul_zero]
      positivity
  · intro hle
    have hhalf : 2 * y ≤ (10 : ℚ) ^ (p.tiny - e).toNat := by
      refine le_of_mul_le_mul_right ?_ hunit
      calc 2 * y * 10 ^ e = 2 * (y * 10 ^ e) := mul_assoc _ _ _
        _ ≤ 10 ^ p.tiny := hle
        _ ≤ 10 ^ (((p.tiny - e).toNat : ℤ) + e) :=
          zpow_le_zpow_right₀ (by norm_num) (by omega)
        _ = 10 ^ (p.tiny - e).toNat * 10 ^ e := by
          rw [zpow_add₀ (by norm_num), zpow_natCast]
    calc 2 * c ≤ 10 ^ (p.tiny - e).toNat := (half_le_iff hdigits hstands _).mpr hhalf
      _ ≤ 10 ^ p.cut c e := Nat.pow_le_pow_right (by decide) (by omega)

end Precision

end TowerLisp
