import Mathlib.Order.Compare
import TowerLisp.Number.Compare
import TowerLisp.Proofs.DecimalArithmetic
import TowerLisp.Proofs.ExactScalars
import TowerLisp.Proofs.Outcomes

/-!
How decimals are compared. Their order is that of the rational numbers they denote. Where an
exact number meets a decimal, it is its decimal that is compared, and a fraction is rounded to
become one: so equality is transitive, unless a decimal stands between two exact numbers that
both round to it.
-/

namespace TowerLisp

namespace Decimal

open Binary64 (signed)

theorem compares_nat (m n : ℕ) : (compare m n).Compares m n :=
  cmp_eq_compare m n ▸ cmp_compares m n

/-- The number of digits and the exponent say where the first digit is. -/
theorem magnitude_bounds {c : ℕ} (hc : c ≠ 0) (e : ℤ) :
    (10 : ℚ) ^ (Digits.count c + e - 1) ≤ c * 10 ^ e ∧
      (c : ℚ) * 10 ^ e < 10 ^ (Digits.count c + e) := by
  have hcount := Digits.count_pos c
  refine ⟨?_, lt_pow_add_of_lt (Digits.lt_pow_count c) e⟩
  have hlow := pow_count_mul_le (Nat.pos_of_ne_zero hc) e
  rwa [show ((Digits.count c - 1 : ℕ) : ℤ) + e = Digits.count c + e - 1 by omega] at hlow

theorem lt_of_first_lt {c d : ℕ} {e f : ℤ} (hc : c ≠ 0) (hd : d ≠ 0)
    (h : (Digits.count c : ℤ) + e < Digits.count d + f) : (c : ℚ) * 10 ^ e < d * 10 ^ f :=
  calc (c : ℚ) * 10 ^ e < 10 ^ (Digits.count c + e) := (magnitude_bounds hc e).2
    _ ≤ 10 ^ (Digits.count d + f - 1) := zpow_le_zpow_right₀ (by norm_num) (by omega)
    _ ≤ d * 10 ^ f := (magnitude_bounds hd f).1

/-- Coefficients are compared in place of numbers at one exponent, or if one is zero. -/
theorem compares_mul {o : Ordering} {m n : ℕ} {u v : ℚ} (hu : 0 < u) (hv : 0 < v)
    (hsame : u = v ∨ m = 0 ∨ n = 0) (h : o.Compares m n) : o.Compares (m * u) (n * v) := by
  have hlt : ∀ {m n : ℕ} {u v : ℚ}, 0 < u → 0 < v → u = v ∨ m = 0 ∨ n = 0 → m < n →
      (m : ℚ) * u < n * v := by
    intro m n u v hu hv hsame hlt
    have hn : (m : ℚ) < n := by exact_mod_cast hlt
    rcases hsame with rfl | rfl | rfl
    · exact mul_lt_mul_of_pos_right hn hu
    · rw [Nat.cast_zero] at hn ⊢
      rw [zero_mul]
      exact mul_pos hn hv
    · omega
  cases o with
  | lt => exact hlt hu hv hsame h
  | eq =>
    obtain rfl : m = n := h
    rcases hsame with rfl | rfl | rfl
    · rfl
    · simp
    · simp
  | gt => exact hlt hv hu (by tauto) h

theorem compareMagnitude_compares (c d : ℕ) (e f : ℤ) :
    (compareMagnitude c e d f).Compares ((c : ℚ) * 10 ^ e) (d * 10 ^ f) := by
  have hunit : ∀ k : ℤ, (0 : ℚ) < 10 ^ k := zpow_pos (by norm_num)
  have hscale : ∀ {m : ℕ} {k g : ℤ}, g ≤ k →
      (m : ℚ) * 10 ^ k = (m * 10 ^ (k - g).toNat : ℕ) * 10 ^ g := by
    intro m k g hle
    obtain ⟨j, rfl⟩ := Int.le.dest hle
    rw [add_sub_cancel_left, Int.toNat_natCast, zpow_add₀ (by norm_num), zpow_natCast]
    push_cast
    ring
  unfold compareMagnitude
  simp only [Nat.pow_eq, Bool.or_eq_true, decide_eq_true_eq]
  by_cases hzero : c = 0 ∨ d = 0
  · rw [if_pos hzero]
    exact compares_mul (hunit e) (hunit f) (Or.inr hzero) (compares_nat c d)
  rw [if_neg hzero]
  obtain ⟨hc, hd⟩ := not_or.mp hzero
  by_cases hfirst : (Digits.count c : ℤ) + e = Digits.count d + f
  · rw [if_pos hfirst, hscale (min_le_left e f), hscale (min_le_right e f)]
    exact compares_mul (hunit _) (hunit _) (Or.inl rfl) (compares_nat _ _)
  · rw [if_neg hfirst]
    rcases lt_or_gt_of_ne hfirst with hlt | hgt
    · rw [compare_lt_iff_lt.mpr hlt]
      exact lt_of_first_lt hc hd hlt
    · rw [compare_gt_iff_gt.mpr hgt]
      exact lt_of_first_lt hd hc hgt

/-- A coefficient of zero has no sign. -/
theorem sign_cases (s : Bool) (c : ℕ) (e : ℤ) :
    ((s && c != 0) = false ∧ denoted s c e = c * 10 ^ e) ∨
      ((s && c != 0) = true ∧ denoted s c e = -(c * 10 ^ e) ∧ (0 : ℚ) < c * 10 ^ e) := by
  by_cases hc : c = 0
  · subst hc
    simp
  have hpos : (0 : ℚ) < c * 10 ^ e := by
    have := Nat.pos_of_ne_zero hc
    positivity
  cases s with
  | false => simp [denoted_eq, signed]
  | true => simp [denoted_eq, signed, hc, hpos]

/-- Finite decimals are ordered by the numbers they denote. -/
theorem compare?_compares {x y : Decimal} {u v : ℚ} (hx : x.toRat? = some u)
    (hy : y.toRat? = some v) : ∃ o, x.compare? y = some o ∧ o.Compares u v := by
  obtain ⟨s, c, e, rfl, rfl⟩ := exists_finite hx
  obtain ⟨t, d, f, rfl, rfl⟩ := exists_finite hy
  have hcpos : 0 ≤ (c : ℚ) * 10 ^ e := by positivity
  have hdpos : 0 ≤ (d : ℚ) * 10 ^ f := by positivity
  rw [compare?]
  rcases sign_cases s c e with ⟨hs, hu⟩ | ⟨hs, hu, hc⟩ <;>
    rcases sign_cases t d f with ⟨ht, hv⟩ | ⟨ht, hv, hd⟩ <;> rw [hs, ht, hu, hv]
  · exact ⟨_, rfl, compareMagnitude_compares c d e f⟩
  · exact ⟨.gt, rfl, show -(d * 10 ^ f : ℚ) < c * 10 ^ e by linarith⟩
  · exact ⟨.lt, rfl, show -(c * 10 ^ e : ℚ) < d * 10 ^ f by linarith⟩
  · refine ⟨_, rfl, ?_⟩
    have hcompares := compareMagnitude_compares d c f e
    generalize compareMagnitude d f c e = o at hcompares
    cases o with
    | lt => exact neg_lt_neg hcompares
    | eq => exact congrArg Neg.neg (Eq.symm hcompares)
    | gt => exact neg_lt_neg hcompares

theorem ofInt_toRat (n : ℤ) : (ofInt n).toRat? = some (n : ℚ) := by
  rw [ofInt, toRat?_finite, denoted_ofInt, zpow_zero, mul_one]

end Decimal

namespace Scalar

/-- Well-formed exact scalars and finite decimals. -/
def IsExactOrDecimal : Scalar → Prop
  | float _ => False
  | bigfloat d => d.isFinite = true
  | s => s.WellFormedExact

instance : DecidablePred IsExactOrDecimal
  | float _ => inferInstanceAs (Decidable False)
  | bigfloat d => inferInstanceAs (Decidable (d.isFinite = true))
  | int n => inferInstanceAs (Decidable (int n).WellFormedExact)
  | bigint n => inferInstanceAs (Decidable (bigint n).WellFormedExact)
  | rational q => inferInstanceAs (Decidable (rational q).WellFormedExact)

theorem IsExactOrDecimal.cases {s : Scalar} (h : s.IsExactOrDecimal) :
    (∃ q, s = ofRat q) ∨ ∃ d v, s = bigfloat d ∧ d.toRat? = some v := by
  cases s with
  | float x => exact h.elim
  | bigfloat d =>
    cases d with
    | finite s c e => exact Or.inr ⟨_, _, rfl, Decimal.toRat?_finite s c e⟩
    | infinite s => cases h
    | nan m => cases h
  | _ => exact Or.inl ⟨_, WellFormedExact.eq_ofRat h⟩

theorem IsExactOrDecimal.exists_ofRat {s : Scalar} (h : s.IsExactOrDecimal)
    (hkind : s.kind ≠ .bigfloat) : ∃ q, s = ofRat q := by
  obtain hexact | ⟨d, -, rfl, -⟩ := h.cases
  · exact hexact
  · exact absurd rfl hkind

/-- The number that a scalar is taken for beside a decimal. -/
def DecimalValue (s : Scalar) (v : ℚ) : Prop :=
  ∃ d, s.toDecimal = .ok d ∧ d.toRat? = some v

variable {a b s : Scalar} {u v : ℚ}

theorem DecimalValue.unique (hu : s.DecimalValue u) (hv : s.DecimalValue v) : u = v := by
  obtain ⟨d, hd, hu⟩ := hu
  obtain ⟨d', hd', hv⟩ := hv
  rw [hd] at hd'
  cases hd'
  rw [hu] at hv
  exact Option.some.inj hv

/-- The decimal of an exact number is finite, and it is that number unless a fraction does not
fit. -/
theorem decimalValue_ofRat {q : ℚ} {d : Decimal} (h : (ofRat q).toDecimal = .ok d) :
    ∃ v, d.toRat? = some v ∧
      ((∀ p, ofRat q = rational p → Precision.wide.Fits p) → v = q) := by
  obtain ⟨n, rfl, -, hform⟩ | ⟨n, rfl, -, hform⟩ | ⟨-, hform⟩ := ofRat_cases q
  · rw [hform] at h
    cases h
    exact ⟨n, Decimal.ofInt_toRat n, fun _ => rfl⟩
  · rw [hform] at h
    cases h
    exact ⟨n, Decimal.ofInt_toRat n, fun _ => rfl⟩
  · rw [hform] at h
    have hden : ((q.den : ℤ) : ℚ) ≠ 0 := by simp
    obtain ⟨s, c, g, w, hround, -⟩ :=
      Decimal.div_eq_round (Decimal.ofInt_toRat q.num) (Decimal.ofInt_toRat q.den) hden h
    have hvalue := Precision.round_toRat (by decide) hround
    refine ⟨_, hvalue, fun hfits => ?_⟩
    have hq : (q.num : ℚ) / (q.den : ℤ) = q := by
      rw [Int.cast_natCast, Rat.num_div_den]
    have hexact := Decimal.div_fits (by decide) (Decimal.ofInt_toRat q.num)
      (Decimal.ofInt_toRat q.den) hden (hq.symm ▸ hfits q hform) h
    rw [hvalue, hq] at hexact
    exact Option.some.inj hexact

theorem compare_ofRat_iff {p q : ℚ} : (ofRat p).compare (ofRat q) = .ok .eq ↔ p = q := by
  rw [compare_ofRat]
  rcases lt_trichotomy p q with h | h | h
  · simp [h, h.ne]
  · simp [h]
  · simp [h, h.ne', h.not_gt]

/-- Equal exact numbers are one number, in one representation. -/
theorem eq_of_compare (ha : a.IsExactOrDecimal) (hb : b.IsExactOrDecimal)
    (hkind : ¬ (a.kind = .bigfloat ∨ b.kind = .bigfloat)) (h : a.compare b = .ok .eq) : a = b := by
  obtain ⟨hka, hkb⟩ := not_or.mp hkind
  obtain ⟨p, rfl⟩ := ha.exists_ofRat hka
  obtain ⟨q, rfl⟩ := hb.exists_ofRat hkb
  rw [compare_ofRat_iff.mp h]

theorem join_bigfloat (h : a.kind = .bigfloat ∨ b.kind = .bigfloat) : a.join b = .bigfloat := by
  cases a <;> cases b <;> simp_all [kind, join, Kind.join, Kind.rank]

theorem IsExactOrDecimal.exists_value (hs : s.IsExactOrDecimal) {d : Decimal}
    (h : s.toDecimal = .ok d) : ∃ v, d.toRat? = some v := by
  obtain ⟨q, rfl⟩ | ⟨d', v, rfl, hv⟩ := hs.cases
  · obtain ⟨v, hv, -⟩ := decimalValue_ofRat h
    exact ⟨v, hv⟩
  · cases h
    exact ⟨v, hv⟩

theorem compare_of_bigfloat (hkind : a.kind = .bigfloat ∨ b.kind = .bigfloat) :
    a.compare b = a.toDecimal >>= fun x => b.toDecimal >>= fun y =>
      (x.compare? y).elim (.error (.breakdown .invalidDecimal)) .ok := by
  unfold compare
  split
  · rename_i m n hm hn
    cases a <;> cases b <;> simp_all [kind, int?]
  · rw [join_bigfloat hkind]

/-- Beside a decimal, scalars are equal if their decimals denote one number. -/
theorem compare_decimal_iff (ha : a.IsExactOrDecimal) (hb : b.IsExactOrDecimal)
    (hkind : a.kind = .bigfloat ∨ b.kind = .bigfloat) :
    a.compare b = .ok .eq ↔ ∃ v, a.DecimalValue v ∧ b.DecimalValue v := by
  rw [compare_of_bigfloat hkind]
  constructor
  · intro h
    obtain ⟨x, hx, h⟩ := bind_eq_ok h
    obtain ⟨y, hy, h⟩ := bind_eq_ok h
    obtain ⟨u, hu⟩ := ha.exists_value hx
    obtain ⟨v, hv⟩ := hb.exists_value hy
    obtain ⟨o, ho, hcompares⟩ := Decimal.compare?_compares hu hv
    rw [ho] at h
    obtain rfl : o = .eq := Except.ok.inj h
    obtain rfl : u = v := hcompares
    exact ⟨u, ⟨x, hx, hu⟩, y, hy, hv⟩
  · rintro ⟨v, ⟨x, hx, hu⟩, y, hy, hv⟩
    obtain ⟨o, ho, hcompares⟩ := Decimal.compare?_compares hu hv
    rw [hx, hy, ok_bind, ok_bind, ho, hcompares.eq_eq.mpr rfl]
    rfl

theorem DecimalValue.eq_of_fits {q : ℚ} (h : (ofRat q).DecimalValue v)
    (hfits : ∀ p, ofRat q = rational p → Precision.wide.Fits p) : v = q := by
  obtain ⟨d, hd, hv⟩ := h
  obtain ⟨u, hu, hexact⟩ := decimalValue_ofRat hd
  rw [hu] at hv
  rw [← hexact hfits]
  exact (Option.some.inj hv).symm

theorem isExact_ofRat_eq (q : ℚ) : (ofRat q).isExact = true := by
  obtain ⟨n, -, -, h⟩ | ⟨n, -, -, h⟩ | ⟨-, h⟩ := ofRat_cases q <;> rw [h] <;> rfl

end Scalar

namespace Number

open Scalar (IsExactOrDecimal)

theorem equal_scalar_iff {s t : Scalar} :
    equal (scalar s) (scalar t) = .ok true ↔ s.compare t = .ok .eq := by
  change (s.compare t >>= fun o => .ok (o == .eq)) = .ok true ↔ _
  cases s.compare t with
  | ok o => cases o <;> decide
  | error fault => exact ⟨nofun, nofun⟩

/-- Equality of exact numbers and decimals is transitive, if the fractions that a decimal stands
between have no more digits than it may have. -/
theorem equal_trans_of_fits {a b c : Scalar} (ha : a.IsExactOrDecimal) (hb : b.IsExactOrDecimal)
    (hc : c.IsExactOrDecimal)
    (hfits : b.kind = .bigfloat → a.isExact = true → c.isExact = true →
      ∀ q, a = .rational q ∨ c = .rational q → Precision.wide.Fits q)
    (hab : equal (scalar a) (scalar b) = .ok true)
    (hbc : equal (scalar b) (scalar c) = .ok true) :
    equal (scalar a) (scalar c) = .ok true := by
  rw [equal_scalar_iff] at hab hbc ⊢
  by_cases hleft : a.kind = .bigfloat ∨ b.kind = .bigfloat
  swap
  · rw [Scalar.eq_of_compare ha hb hleft hab]
    exact hbc
  by_cases hright : b.kind = .bigfloat ∨ c.kind = .bigfloat
  swap
  · rw [← Scalar.eq_of_compare hb hc hright hbc]
    exact hab
  -- Both times it is decimals that are compared, and the one in the middle is the same.
  obtain ⟨v, hav, hbv⟩ := (Scalar.compare_decimal_iff ha hb hleft).mp hab
  obtain ⟨w, hbw, hcw⟩ := (Scalar.compare_decimal_iff hb hc hright).mp hbc
  obtain rfl : v = w := hbv.unique hbw
  by_cases hends : a.kind = .bigfloat ∨ c.kind = .bigfloat
  · exact (Scalar.compare_decimal_iff ha hc hends).mpr ⟨v, hav, hcw⟩
  · obtain ⟨hka, hkc⟩ := not_or.mp hends
    obtain ⟨p, rfl⟩ := ha.exists_ofRat hka
    obtain ⟨q, rfl⟩ := hc.exists_ofRat hkc
    have hfit := hfits (hleft.resolve_left hka) (Scalar.isExact_ofRat_eq p)
      (Scalar.isExact_ofRat_eq q)
    rw [Scalar.compare_ofRat_iff, ← hav.eq_of_fits fun r hr => hfit r (Or.inl hr)]
    exact hcw.eq_of_fits fun r hr => hfit r (Or.inr hr)

/-- A half has a decimal, so that it is equal to what equals that. -/
theorem equal_trans_of_fits_half :
    equal (scalar (.rational (1 / 2))) (scalar (.bigfloat (.finite false 50 (-2)))) = .ok true ∧
      equal (scalar (.rational (1 / 2))) (scalar (.rational (1 / 2))) = .ok true := by
  have hhalf : (Scalar.rational (1 / 2)).IsExactOrDecimal := by decide +kernel
  have hleft : equal (scalar (.rational (1 / 2))) (scalar (.bigfloat (.finite false 50 (-2)))) =
      .ok true := by
    decide +kernel
  have hright : equal (scalar (.bigfloat (.finite false 50 (-2)))) (scalar (.rational (1 / 2))) =
      .ok true := by
    decide +kernel
  refine ⟨hleft, equal_trans_of_fits hhalf (by decide) hhalf ?_ hleft hright⟩
  have hfits : Precision.wide.Fits (1 / 2) :=
    ⟨5, -1, by norm_num [Precision.wide], by decide, by norm_num⟩
  rintro - - - q (hq | hq)
  · cases hq
    exact hfits
  · cases hq
    exact hfits

/-- A third and its decimal are equal, and so are that decimal and the fraction that it is, but
that fraction is not a third. -/
theorem equal_not_transitive :
    ¬ ∀ a b c : Scalar, a.IsExactOrDecimal → b.IsExactOrDecimal → c.IsExactOrDecimal →
      equal (scalar a) (scalar b) = .ok true → equal (scalar b) (scalar c) = .ok true →
      equal (scalar a) (scalar c) = .ok true := by
  intro h
  have htrue := h (.rational (1 / 3))
    (.bigfloat (.finite false 3333333333333333333333333333333333 (-34)))
    (.rational (3333333333333333333333333333333333 / 10 ^ 34)) (by decide +kernel) (by decide)
    (by decide +kernel) (by decide +kernel) (by decide +kernel)
  have hfalse : equal (scalar (.rational (1 / 3)))
      (scalar (.rational (3333333333333333333333333333333333 / 10 ^ 34))) = .ok false := by
    decide +kernel
  rw [hfalse] at htrue
  cases htrue

end Number

end TowerLisp
