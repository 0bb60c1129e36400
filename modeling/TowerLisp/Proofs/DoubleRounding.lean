import Mathlib.Algebra.Order.Field.Basic
import TowerLisp.Binary64.Basic
import TowerLisp.Proofs.DecimalRounding

/-!
How fractions are rounded to doubles. The exponent at which a fraction is rounded is the one at
which its integer part fills a mantissa, or the least one. What rounding gives is in the range
of doubles, and it is zero for the fractions up to half the smallest double.
-/

namespace TowerLisp

namespace Binary64

/-- The finite numbers that a word of sixty-four bits has room for. -/
def InRange : Binary64 → Prop
  | finite _ m e => m < 2 ^ mantissaBits ∧ leastExponent ≤ e ∧ e ≤ greatestExponent
  | _ => True

instance : DecidablePred InRange
  | finite _ _ _ => inferInstanceAs (Decidable (_ ∧ _))
  | infinite _ => inferInstanceAs (Decidable True)
  | nan => inferInstanceAs (Decidable True)

variable {n d : ℕ}

theorem scaled_spec (n : ℕ) (hd : 0 < d) (e : ℤ) :
    0 < (scaled n d e).2 ∧ ((scaled n d e).1 : ℚ) / (scaled n d e).2 = n / d / 2 ^ e := by
  have hd' : (d : ℚ) ≠ 0 := by exact_mod_cast hd.ne'
  unfold scaled
  simp only [Nat.pow_eq]
  by_cases he : e < 0
  · rw [if_pos he]
    obtain ⟨k, rfl⟩ := Int.exists_eq_neg_ofNat he.le
    refine ⟨hd, ?_⟩
    rw [neg_neg, Int.toNat_natCast, zpow_neg, zpow_natCast]
    push_cast
    field_simp
  · rw [if_neg he]
    obtain ⟨k, rfl⟩ := Int.eq_ofNat_of_zero_le (not_lt.mp he)
    refine ⟨by positivity, ?_⟩
    rw [Int.toNat_natCast, zpow_natCast]
    push_cast
    field_simp

/-- The logarithms of its parts say where a fraction is. -/
theorem fraction_bounds (hn : 0 < n) (hd : 0 < d) :
    (2 : ℚ) ^ ((n.log2 : ℤ) - d.log2 - 1) ≤ n / d ∧
      (n : ℚ) / d < 2 ^ ((n.log2 : ℤ) - d.log2 + 1) := by
  have hbounds : ∀ {k : ℕ}, 0 < k →
      (2 : ℚ) ^ (k.log2 : ℤ) ≤ k ∧ (k : ℚ) < 2 ^ ((k.log2 : ℤ) + 1) := by
    intro k hk
    have hlow := Nat.log2_self_le hk.ne'
    have hhigh : k < 2 ^ (k.log2 + 1) := Nat.lt_log2_self
    exact ⟨by exact_mod_cast hlow, by exact_mod_cast hhigh⟩
  obtain ⟨hnlow, hnhigh⟩ := hbounds hn
  obtain ⟨hdlow, hdhigh⟩ := hbounds hd
  have hd' : (0 : ℚ) < d := by exact_mod_cast hd
  have htwo : (2 : ℚ) ≠ 0 := by norm_num
  have hunit := zpow_pos (by norm_num : (0 : ℚ) < 2) ((n.log2 : ℤ) - d.log2)
  constructor
  · rw [le_div_iff₀ hd']
    calc (2 : ℚ) ^ ((n.log2 : ℤ) - d.log2 - 1) * d
        ≤ 2 ^ ((n.log2 : ℤ) - d.log2 - 1) * 2 ^ ((d.log2 : ℤ) + 1) := by gcongr
      _ = 2 ^ (n.log2 : ℤ) := by
        rw [← zpow_add₀ htwo]
        congr 1
        omega
      _ ≤ n := hnlow
  · rw [div_lt_iff₀ hd']
    calc (n : ℚ) < 2 ^ ((n.log2 : ℤ) + 1) := hnhigh
      _ = 2 ^ ((n.log2 : ℤ) - d.log2 + 1) * 2 ^ (d.log2 : ℤ) := by
        rw [← zpow_add₀ htwo]
        congr 1
        omega
      _ ≤ 2 ^ ((n.log2 : ℤ) - d.log2 + 1) * d := by gcongr

/-- A fraction is rounded at an exponent at which it is below a full mantissa, and not below the
smallest one with a leading bit, if that is possible. -/
theorem exponentOf_spec (hn : 0 < n) (hd : 0 < d) :
    leastExponent ≤ exponentOf n d ∧ (n : ℚ) / d < 2 ^ (exponentOf n d + 53) ∧
      (leastExponent < exponentOf n d → (2 : ℚ) ^ (exponentOf n d + 52) ≤ n / d) := by
  obtain ⟨hlow, hhigh⟩ := fraction_bounds hn hd
  obtain ⟨e, heq, hbelow, habove⟩ : ∃ e, exponentOf n d = max leastExponent e ∧
      (n : ℚ) / d < 2 ^ (e + 53) ∧ (2 : ℚ) ^ (e + 52) ≤ n / d := by
    let e : ℤ := n.log2 - d.log2 - 52
    obtain ⟨hpos, hvalue⟩ := scaled_spec n hd e
    have hcheck : (scaled n d e).1 < (scaled n d e).2 * 2 ^ 52 ↔
        (n : ℚ) / d < 2 ^ (e + 52) := by
      have hpos' : (0 : ℚ) < (scaled n d e).2 := by exact_mod_cast hpos
      have hunit : (0 : ℚ) < 2 ^ e := zpow_pos (by norm_num) e
      rw [zpow_add₀ (by norm_num), mul_comm ((2 : ℚ) ^ e), ← div_lt_iff₀ hunit, ← hvalue,
        div_lt_iff₀ hpos', mul_comm]
      norm_cast
    by_cases hless : (scaled n d e).1 < (scaled n d e).2 * 2 ^ 52
    · refine ⟨e - 1, ?_, ?_, ?_⟩
      · unfold exponentOf
        exact congrArg (max leastExponent) (if_pos hless)
      · convert hcheck.mp hless using 2
        omega
      · convert hlow using 2
        omega
    · refine ⟨e, ?_, ?_, ?_⟩
      · unfold exponentOf
        exact congrArg (max leastExponent) (if_neg hless)
      · convert hhigh using 2
        omega
      · exact not_lt.mp (mt hcheck.mpr hless)
  rw [heq]
  refine ⟨le_max_left _ _, ?_, fun hlt => ?_⟩
  · exact hbelow.trans_le (zpow_le_zpow_right₀ (by norm_num) (by omega))
  · rwa [max_eq_right (by omega)]

/-- What is rounded is the fraction in units of its exponent. -/
theorem ofRatio_eq (s : Bool) (hn : 0 < n) (hd : 0 < d) :
    ∃ n' d' : ℕ, 0 < d' ∧ (n' : ℚ) / d' = n / d / 2 ^ exponentOf n d ∧ n' < 2 ^ 53 * d' ∧
      ofRatio s n d =
        if Digits.divNearest n' d' = Nat.pow 2 mantissaBits then
          if greatestExponent < exponentOf n d + 1 then infinite s
          else finite s (Nat.pow 2 (mantissaBits - 1)) (exponentOf n d + 1)
        else if greatestExponent < exponentOf n d then infinite s
        else finite s (Digits.divNearest n' d') (exponentOf n d) := by
  rw [ofRatio, if_neg hn.ne']
  extract_lets e
  have hbelow : (n : ℚ) / d < 2 ^ (e + 53) := (exponentOf_spec hn hd).2.1
  obtain ⟨hpos, hvalue⟩ := scaled_spec n hd e
  generalize scaled n d e = result at hpos hvalue ⊢
  obtain ⟨n', d'⟩ := result
  refine ⟨n', d', hpos, hvalue, ?_, ?_⟩
  · have hpos' : (0 : ℚ) < d' := by exact_mod_cast hpos
    have hunit : (0 : ℚ) < 2 ^ e := zpow_pos (by norm_num) e
    rw [zpow_add₀ (by norm_num), mul_comm ((2 : ℚ) ^ e), ← div_lt_iff₀ hunit, ← hvalue,
      div_lt_iff₀ hpos'] at hbelow
    exact_mod_cast hbelow
  · dsimp only
    by_cases hfull : Digits.divNearest n' d' = Nat.pow 2 mantissaBits
    · rw [if_pos hfull, if_pos hfull]
    · rw [if_neg hfull, if_neg hfull]

/-- Rounding a fraction gives a double. -/
theorem ofRatio_inRange (s : Bool) (n : ℕ) (hd : 0 < d) : (ofRatio s n d).InRange := by
  rcases Nat.eq_zero_or_pos n with rfl | hn
  · exact ⟨by decide, by decide, by decide⟩
  obtain ⟨n', d', hd', -, hbelow, heq⟩ := ofRatio_eq s hn hd
  obtain ⟨hleast, -, -⟩ := exponentOf_spec hn hd
  have hle : Digits.divNearest n' d' ≤ 2 ^ mantissaBits := Digits.divNearest_le hd' hbelow
  rw [heq]
  split_ifs with hfull hlarge hlarge
  · trivial
  · exact ⟨by decide, by omega, by omega⟩
  · trivial
  · exact ⟨lt_of_le_of_ne hle hfull, hleast, by omega⟩

/-- Half the smallest double goes to zero, as all smaller fractions do. -/
theorem isZero_ofRatio (s : Bool) (hn : 0 < n) (hd : 0 < d) :
    (ofRatio s n d).isZero = true ↔ 2 * ((n : ℚ) / d) ≤ 2 ^ leastExponent := by
  obtain ⟨n', d', hd', hvalue, -, heq⟩ := ofRatio_eq s hn hd
  obtain ⟨hleast, -, hnormal⟩ := exponentOf_spec hn hd
  generalize exponentOf n d = e at hvalue heq hleast hnormal
  have hunit : ∀ k : ℤ, (0 : ℚ) < 2 ^ k := zpow_pos (by norm_num)
  have hhalf : Digits.divNearest n' d' = 0 ↔ 2 * ((n : ℚ) / d) ≤ 2 ^ e := by
    have hd'' : (0 : ℚ) < d' := by exact_mod_cast hd'
    rw [Digits.divNearest_eq_zero_iff hd', ← div_le_one₀ (hunit e), mul_div_assoc, ← hvalue,
      mul_div_assoc', div_le_one₀ hd'']
    norm_cast
  have hsame : 2 * ((n : ℚ) / d) ≤ 2 ^ e → e = leastExponent := by
    intro h
    by_contra hne
    have hlow := hnormal (by omega)
    rw [zpow_add₀ (by norm_num)] at hlow
    have := hunit e
    norm_num at hlow
    linarith
  rw [heq]
  constructor
  · intro h
    split_ifs at h with hfull hlarge hlarge
    · cases h
    · exact absurd (beq_iff_eq.mp h) (by decide)
    · cases h
    · have hle := hhalf.mp (beq_iff_eq.mp h)
      rwa [hsame hle] at hle
  · intro h
    have hle : 2 * ((n : ℚ) / d) ≤ 2 ^ e := h.trans (zpow_le_zpow_right₀ (by norm_num) hleast)
    have hzero := hhalf.mpr hle
    rw [hsame hle, hzero]
    rfl

theorem isZero_ofRat {q : ℚ} :
    (ofRat q).isZero = true ↔ 2 * |q| ≤ 2 ^ leastExponent := by
  rcases Nat.eq_zero_or_pos q.num.natAbs with hzero | hpos
  · have hq : q = 0 := by
      rw [← Rat.num_eq_zero]
      omega
    subst hq
    exact iff_of_true rfl (by rw [abs_zero, mul_zero]; positivity)
  · have habs : |q| = (q.num.natAbs : ℚ) / q.den := by
      rw [Nat.cast_natAbs, Int.cast_abs, ← Nat.abs_cast q.den, ← abs_div, Rat.num_div_den]
    rw [ofRat, isZero_ofRatio _ hpos q.den_pos, habs]

/-- Integers do not go to zero. -/
theorem isZero_ofInt {n : ℤ} : (ofInt n).isZero = true ↔ n = 0 := by
  have hcast : ofInt n = ofRat n := rfl
  rw [hcast, isZero_ofRat]
  constructor
  · intro h
    by_contra hne
    have hone : (1 : ℚ) ≤ |(n : ℚ)| := by exact_mod_cast Int.one_le_abs hne
    have hless : (2 : ℚ) ^ leastExponent ≤ 1 :=
      zpow_le_one_of_nonpos₀ (by norm_num) (by decide)
    linarith
  · rintro rfl
    rw [Int.cast_zero, abs_zero, mul_zero]
    positivity

end Binary64

end TowerLisp
