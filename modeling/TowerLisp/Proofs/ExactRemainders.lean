import Mathlib.Algebra.Order.Floor.Ring
import Mathlib.Data.Rat.Floor
import Mathlib.Order.Bounds.Defs
import TowerLisp.Number.Modulo
import TowerLisp.Proofs.ExactNumbers

/-!
Remainders of exact numbers. The floor of an exact scalar is the greatest integer that is not
above it, and a remainder is what the divisor leaves of the dividend when it is taken away as
often as the floor of the quotient says. So it takes the sign of the divisor and is smaller,
and quotient, floor, product and sum give the dividend back, component by component.
-/

namespace TowerLisp

namespace Scalar

theorem floorModRat_eq (p q : ℚ) : floorModRat p q = p - q * ⌊p / q⌋ := by
  change p - q * mkRat ⌊p / q⌋ 1 = _
  rw [Rat.mkRat_one]

/-- What is left is the fractional part of the quotient, in units of the divisor. -/
theorem floorModRat_eq_mul_fract (p : ℚ) {q : ℚ} (hq : q ≠ 0) :
    floorModRat p q = q * Int.fract (p / q) := by
  rw [floorModRat_eq, Int.fract, mul_sub, mul_div_cancel₀ p hq]

theorem floorModRat_sign (p : ℚ) {q : ℚ} (hq : q ≠ 0) :
    floorModRat p q = 0 ∨ (0 < floorModRat p q ↔ 0 < q) := by
  rw [floorModRat_eq_mul_fract p hq]
  by_cases hwhole : Int.fract (p / q) = 0
  · exact Or.inl (by rw [hwhole, mul_zero])
  · have hpos : 0 < Int.fract (p / q) := lt_of_le_of_ne (Int.fract_nonneg _) (Ne.symm hwhole)
    exact Or.inr (mul_pos_iff_of_pos_right hpos)

theorem abs_floorModRat_lt (p : ℚ) {q : ℚ} (hq : q ≠ 0) : |floorModRat p q| < |q| := by
  rw [floorModRat_eq_mul_fract p hq, abs_mul, Int.abs_fract]
  exact mul_lt_of_lt_one_right (abs_pos.mpr hq) (Int.fract_lt_one _)

theorem floorMod_ofRat (p q : ℚ) :
    (ofRat p).floorMod (ofRat q) = .ok (ofRat (floorModRat p q)) := by
  obtain ⟨hfloat, hbigfloat⟩ := join_ofRat p q
  unfold floorMod
  split
  · contradiction
  · contradiction
  · rw [toRat_ofRat, toRat_ofRat]
    rfl

end Scalar

namespace Number

open Scalar (floorModRat)

theorem floor_ofRat (q : ℚ) : floor (ofRat q) = .ok (ofInt ⌊q⌋) := by
  obtain ⟨n, rfl, hword, h⟩ | ⟨n, rfl, hword, h⟩ | ⟨-, h⟩ := Scalar.ofRat_cases q
  · rw [ofRat, h, Int.floor_intCast, ofInt, Scalar.ofInt, if_pos hword]
    rfl
  · rw [ofRat, h, Int.floor_intCast, ofInt, Scalar.ofInt, hword]
    rfl
  · rw [ofRat, h]
    rfl

theorem ofInt_eq_ofRat_intCast (n : ℤ) : ofInt n = ofRat n := by
  rw [ofInt, ofRat, Scalar.ofRat_intCast]

/-- `r` is left of `a` by a division by `b` that is rounded down. -/
structure Leaves (b a r : Scalar) : Prop where
  exact : r.WellFormedExact
  sign : r.exactValue = 0 ∨ (0 < r.exactValue ↔ 0 < b.exactValue)
  small : |r.exactValue| < |b.exactValue|
  whole : (do
    let quotient ← div (scalar a) (scalar b)
    let product ← mul (scalar b) (← floor quotient)
    equal (scalar a) (← add product (scalar r))) = .ok true

theorem leaves_ofRat (p : ℚ) {q : ℚ} (hq : q ≠ 0) :
    Leaves (.ofRat q) (.ofRat p) (.ofRat (floorModRat p q)) where
  exact := Scalar.wellFormedExact_ofRat _
  sign := by simpa only [Scalar.exactValue_ofRat] using Scalar.floorModRat_sign p hq
  small := by simpa only [Scalar.exactValue_ofRat] using Scalar.abs_floorModRat_lt p hq
  whole := by
    change (do
      let quotient ← div (ofRat p) (ofRat q)
      let product ← mul (ofRat q) (← floor quotient)
      equal (ofRat p) (← add product (ofRat (floorModRat p q)))) = _
    have hsum : q * ⌊p / q⌋ + floorModRat p q = p := by
      rw [Scalar.floorModRat_eq]
      ring
    rw [div, divWithin_ofRat _ p hq]
    simp only [ok_bind, floor_ofRat, ofInt_eq_ofRat_intCast, mul_ofRat, add_ofRat, hsum, equal,
      equalWithin_ofRat, decide_true]

/-- The components of numbers, as scalars that are related one by one. -/
def Componentwise (R : Scalar → Scalar → Prop) (a c : Number) : Prop :=
  List.Forall₂ (fun x y => ∃ s t, x = scalar s ∧ y = scalar t ∧ R s t) a.components c.components

theorem floorModPart_ofRat (p q : ℚ) :
    floorModPart (.ofRat q) (ofRat p) = .ok (ofRat (floorModRat p q)) := by
  rw [floorModPart, ofRat, real, ok_bind, Scalar.floorMod_ofRat]
  rfl

theorem mod_ofRat_leaves {a : Number} (ha : a.WellFormedExact) {q : ℚ} (hq : q ≠ 0) :
    ∃ c, mod a (scalar (.ofRat q)) = .ok c ∧ Componentwise (Leaves (.ofRat q)) a c := by
  have hdivisor : (Scalar.ofRat q).isZero = false := by
    rw [Scalar.isZero_ofRat, decide_eq_false hq]
  have hpart : ∀ p, ∃ s t, ofRat p = scalar s ∧ ofRat (floorModRat p q) = scalar t ∧
      Leaves (.ofRat q) s t := fun p => ⟨_, _, rfl, rfl, leaves_ofRat p hq⟩
  obtain ⟨p, rfl⟩ | ⟨p₀, p₁, rfl⟩ | ⟨p₀, p₁, p₂, p₃, rfl⟩ := ha.eq_cases
  · refine ⟨ofRat (floorModRat p q), ?_, .cons (hpart p) .nil⟩
    rw [ofRat, mod, hdivisor]
    exact floorModPart_ofRat p q
  · refine ⟨complex (ofRat (floorModRat p₀ q)) (ofRat (floorModRat p₁ q)), ?_,
      .cons (hpart p₀) (.cons (hpart p₁) .nil)⟩
    rw [mod, hdivisor]
    simp only [Bool.false_eq_true, if_false, floorModPart_ofRat, ok_bind]
    rfl
  · refine ⟨quaternion (ofRat (floorModRat p₀ q)) (ofRat (floorModRat p₁ q))
      (ofRat (floorModRat p₂ q)) (ofRat (floorModRat p₃ q)), ?_,
      .cons (hpart p₀) (.cons (hpart p₁) (.cons (hpart p₂) (.cons (hpart p₃) .nil)))⟩
    rw [mod, hdivisor]
    simp only [Bool.false_eq_true, if_false, floorModPart_ofRat, ok_bind]
    rfl

/-- The remainder of an exact number by an exact scalar is a number of the same shape, each
component of which is left of that of the dividend by a floored division; and the floor of an
exact scalar is the greatest integer that is not above it. -/
theorem exact_remainder_floored {a : Number} {b : Scalar} (ha : a.WellFormedExact)
    (hb : b.WellFormedExact) (hzero : b.exactValue ≠ 0) :
    (∃ c, mod a (scalar b) = .ok c ∧ Componentwise (Leaves b) a c) ∧
      ∀ s : Scalar, s.WellFormedExact →
        ∃ n, floor (scalar s) = .ok (ofInt n) ∧ IsGreatest {m : ℤ | (m : ℚ) ≤ s.exactValue} n := by
  constructor
  · have h := mod_ofRat_leaves ha hzero
    rw [← hb.eq_ofRat] at h
    exact h
  · intro s hs
    refine ⟨⌊s.exactValue⌋, ?_, Int.floor_le s.exactValue, fun m hm => Int.le_floor.mpr hm⟩
    have h := floor_ofRat s.exactValue
    rw [ofRat, ← hs.eq_ofRat] at h
    exact h

/-- Components on both sides of zero, one of them past the word, by a negative fraction. -/
theorem exact_remainder_floored_negative :
    let a := complex (scalar (.bigint (2 ^ 63))) (scalar (.int (-7)))
    let b := Scalar.rational (-3 / 2)
    a.WellFormedExact ∧ b.WellFormedExact ∧ b.exactValue ≠ 0 ∧
      mod a (scalar b) = .ok (complex (scalar (.int (-1))) (scalar (.int (-1)))) ∧
      ∃ c, mod a (scalar b) = .ok c ∧ Componentwise (Leaves b) a c := by
  intro a b
  have ha : a.WellFormedExact := ⟨by decide, by decide⟩
  have hb : b.WellFormedExact := by decide +kernel
  have hne : b.exactValue ≠ 0 := by
    change (-3 / 2 : ℚ) ≠ 0
    norm_num
  exact ⟨ha, hb, hne, by decide +kernel, (exact_remainder_floored ha hb hne).1⟩

end Number

end TowerLisp
