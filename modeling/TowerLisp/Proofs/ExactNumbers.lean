import Mathlib.Algebra.Quaternion
import Mathlib.Tactic.NormNum
import TowerLisp.Proofs.ExactScalars
import TowerLisp.Proofs.Outcomes

/-!
Exact numbers and the quaternions over the rational numbers. A number stands for the
quaternion of its components, those that it lacks being zero. Sums, differences,
products and quotients of exact numbers are exact numbers that stand for the sum,
the difference, the Hamilton product and the quotient, in the smaller of the shapes
that hold both operands.
-/

namespace TowerLisp.Number

open Quaternion

/-- Well-formed exact scalars, and complex numbers and quaternions of such scalars. -/
def WellFormedExact : Number → Prop
  | scalar s => s.WellFormedExact
  | complex (scalar re) (scalar im) => re.WellFormedExact ∧ im.WellFormedExact
  | quaternion (scalar re) (scalar i) (scalar j) (scalar k) =>
    re.WellFormedExact ∧ i.WellFormedExact ∧ j.WellFormedExact ∧ k.WellFormedExact
  | _ => False

/-- The quaternion with the given components. -/
def ofAxes (re i j k : ℚ) : ℍ[ℚ] :=
  ⟨re, i, j, k⟩

section Axes

variable (p q r s : ℚ)

@[simp] theorem ofAxes_re : (ofAxes p q r s).re = p := rfl

@[simp] theorem ofAxes_imI : (ofAxes p q r s).imI = q := rfl

@[simp] theorem ofAxes_imJ : (ofAxes p q r s).imJ = r := rfl

@[simp] theorem ofAxes_imK : (ofAxes p q r s).imK = s := rfl

end Axes

/-- The quaternion that an exact number stands for. -/
def exactValue : Number → ℍ[ℚ]
  | scalar s => ofAxes s.exactValue 0 0 0
  | complex re im => ofAxes re.exactValue.re im.exactValue.re 0 0
  | quaternion re i j k =>
    ofAxes re.exactValue.re i.exactValue.re j.exactValue.re k.exactValue.re

theorem zero_eq_ofRat : zero = ofRat 0 := rfl

@[simp] theorem exactValue_ofRat (q : ℚ) : (ofRat q).exactValue = ofAxes q 0 0 0 := by
  change ofAxes (Scalar.ofRat q).exactValue 0 0 0 = ofAxes q 0 0 0
  rw [Scalar.exactValue_ofRat]

@[simp] theorem exactValue_complex (p q : ℚ) :
    (complex (ofRat p) (ofRat q)).exactValue = ofAxes p q 0 0 := by
  change ofAxes (ofRat p).exactValue.re (ofRat q).exactValue.re 0 0 = ofAxes p q 0 0
  rw [exactValue_ofRat, exactValue_ofRat, ofAxes_re, ofAxes_re]

@[simp] theorem exactValue_quaternion (p q r s : ℚ) :
    (quaternion (ofRat p) (ofRat q) (ofRat r) (ofRat s)).exactValue = ofAxes p q r s := by
  change ofAxes (ofRat p).exactValue.re (ofRat q).exactValue.re (ofRat r).exactValue.re
    (ofRat s).exactValue.re = ofAxes p q r s
  rw [exactValue_ofRat, exactValue_ofRat, exactValue_ofRat, exactValue_ofRat]
  simp only [ofAxes_re]

/-- The forms of an exact number. -/
theorem WellFormedExact.eq_cases {a : Number} (h : a.WellFormedExact) :
    (∃ p, a = ofRat p) ∨ (∃ p q, a = complex (ofRat p) (ofRat q)) ∨
      (∃ p q r s, a = quaternion (ofRat p) (ofRat q) (ofRat r) (ofRat s)) := by
  have hscalar : ∀ {s : Scalar}, s.WellFormedExact → scalar s = ofRat s.exactValue :=
    fun hs => congrArg scalar hs.eq_ofRat
  unfold WellFormedExact at h
  split at h
  · exact Or.inl ⟨_, hscalar h⟩
  · rw [hscalar h.1, hscalar h.2]
    exact Or.inr (Or.inl ⟨_, _, rfl⟩)
  · obtain ⟨hre, hi, hj, hk⟩ := h
    rw [hscalar hre, hscalar hi, hscalar hj, hscalar hk]
    exact Or.inr (Or.inr ⟨_, _, _, _, rfl⟩)
  · exact h.elim

/-- `r` is an exact number that stands for `z` and has `size` components. -/
def Gives (r : Except Fault Number) (z : ℍ[ℚ]) (size : Nat) : Prop :=
  ∃ c, r = .ok c ∧ c.WellFormedExact ∧ c.exactValue = z ∧ c.components.length = size

theorem Gives.of_eq {r : Except Fault Number} {y z : ℍ[ℚ]} {size : Nat} (h : Gives r y size)
    (hyz : y = z) : Gives r z size :=
  hyz ▸ h

theorem gives_ofRat (q : ℚ) : Gives (.ok (ofRat q)) (ofAxes q 0 0 0) 1 :=
  ⟨ofRat q, rfl, Scalar.wellFormedExact_ofRat q, exactValue_ofRat q, rfl⟩

theorem gives_complex (p q : ℚ) :
    Gives (.ok (complex (ofRat p) (ofRat q))) (ofAxes p q 0 0) 2 :=
  ⟨_, rfl, ⟨Scalar.wellFormedExact_ofRat p, Scalar.wellFormedExact_ofRat q⟩,
    exactValue_complex p q, rfl⟩

theorem gives_quaternion (z : ℍ[ℚ]) :
    Gives (.ok (quaternion (ofRat z.re) (ofRat z.imI) (ofRat z.imJ) (ofRat z.imK))) z 4 :=
  ⟨_, rfl, ⟨Scalar.wellFormedExact_ofRat _, Scalar.wellFormedExact_ofRat _,
    Scalar.wellFormedExact_ofRat _, Scalar.wellFormedExact_ofRat _⟩,
    exactValue_quaternion _ _ _ _, rfl⟩

section Scalars

variable (n : Nat) (p q : ℚ)

theorem zipWithin_ofRat {op : ScalarOperation} {f : ℚ → ℚ → ℚ} (h : op.Exact f) :
    zipWithin op.apply n (ofRat p) (ofRat q) = .ok (ofRat (f p q)) := by
  rw [ofRat, ofRat, zipWithin, h.apply_ofRat]
  rfl

@[simp] theorem add_ofRat : add (ofRat p) (ofRat q) = .ok (ofRat (p + q)) :=
  zipWithin_ofRat _ p q ScalarOperation.exact_add

@[simp] theorem sub_ofRat : sub (ofRat p) (ofRat q) = .ok (ofRat (p - q)) :=
  zipWithin_ofRat _ p q ScalarOperation.exact_sub

@[simp] theorem mulWithin_ofRat :
    mulWithin n (ofRat p) (ofRat q) = .ok (ofRat (p * q)) := by
  rw [ofRat, ofRat, mulWithin, ScalarOperation.exact_mul.apply_ofRat]
  rfl

@[simp] theorem mul_ofRat : mul (ofRat p) (ofRat q) = .ok (ofRat (p * q)) :=
  mulWithin_ofRat _ p q

theorem divWithin_ofRat {q : ℚ} (hq : q ≠ 0) :
    divWithin n (ofRat p) (ofRat q) = .ok (ofRat (p / q)) := by
  rw [ofRat, ofRat, divWithin, Scalar.div_ofRat p hq]
  rfl

theorem divWithin_ofRat_zero :
    divWithin n (ofRat p) (ofRat 0) = .error (.divisionByZero .quotient) := by
  rw [ofRat, ofRat, divWithin, Scalar.div_ofRat_zero]
  rfl

@[simp] theorem neg_ofRat : (ofRat p).neg = .ok (ofRat (-p)) := by
  rw [ofRat, neg, Scalar.neg_ofRat]
  rfl

@[simp] theorem isZero_ofRat : (ofRat p).isZero = decide (p = 0) :=
  Scalar.isZero_ofRat p

@[simp] theorem equalWithin_ofRat :
    equalWithin n (ofRat p) (ofRat q) = .ok (decide (p = q)) := by
  rw [ofRat, ofRat, equalWithin, Scalar.compare_ofRat]
  change Except.ok (_ == Ordering.eq) = _
  rcases lt_trichotomy p q with hlt | heq | hgt
  · simp [hlt, hlt.ne]
  · simp [heq]
  · simp [hgt, hgt.ne', hgt.not_gt]

end Scalars

/-- The components of an exact number as a quaternion. -/
theorem WellFormedExact.asQuaternion_eq {a : Number} (h : a.WellFormedExact) :
    a.asQuaternion = (ofRat a.exactValue.re, ofRat a.exactValue.imI, ofRat a.exactValue.imJ,
      ofRat a.exactValue.imK) := by
  obtain ⟨p, rfl⟩ | ⟨p, q, rfl⟩ | ⟨p, q, r, s, rfl⟩ := h.eq_cases
  · rw [exactValue_ofRat]
    rfl
  · rw [exactValue_complex]
    rfl
  · rw [exactValue_quaternion]
    rfl

/-- The components of an exact number that is no quaternion, as a complex number. -/
theorem WellFormedExact.asComplex_eq {a : Number} (h : a.WellFormedExact)
    (hkind : a.kind ≠ .quaternion) :
    a.asComplex = (ofRat a.exactValue.re, ofRat a.exactValue.imI) ∧
      a.exactValue.imJ = 0 ∧ a.exactValue.imK = 0 := by
  obtain ⟨p, rfl⟩ | ⟨p, q, rfl⟩ | ⟨p, q, r, s, rfl⟩ := h.eq_cases
  · rw [exactValue_ofRat]
    exact ⟨rfl, rfl, rfl⟩
  · rw [exactValue_complex]
    exact ⟨rfl, rfl, rfl⟩
  · exact absurd rfl hkind

/-- The number of components of the least shape that holds both numbers: one for scalars,
two for complex numbers, four for quaternions. -/
def jointSize (a b : Number) : Nat :=
  max a.components.length b.components.length

@[simp] theorem height_ofRat (p : ℚ) : (ofRat p).height = 0 := rfl

@[simp] theorem components_ofRat (p : ℚ) : (ofRat p).components = [ofRat p] := rfl

@[simp] theorem components_complex (re im : Number) : (complex re im).components = [re, im] := rfl

@[simp] theorem components_quaternion (re i j k : Number) :
    (quaternion re i j k).components = [re, i, j, k] := rfl

@[simp] theorem kind_complex (re im : Number) : (complex re im).kind = .complex := rfl

@[simp] theorem kind_quaternion (re i j k : Number) :
    (quaternion re i j k).kind = .quaternion := rfl

theorem kind_ofRat_ne (p : ℚ) : (ofRat p).kind ≠ .quaternion := by
  change (Scalar.ofRat p).kind ≠ .quaternion
  cases Scalar.ofRat p <;> nofun

/-- Two exact numbers are combined as scalars, as quaternions or as complex numbers. -/
theorem WellFormedExact.shapes {a b : Number} (ha : a.WellFormedExact) (hb : b.WellFormedExact) :
    (∃ p q, a = ofRat p ∧ b = ofRat q) ∨
      ((∀ s t, a = scalar s → b = scalar t → False) ∧ jointHeight a b = 1 ∧
        ((needsQuaternion a b = true ∧ jointSize a b = 4) ∨
          (needsQuaternion a b = false ∧ jointSize a b = 2))) := by
  obtain ⟨p, rfl⟩ | ⟨p, q, rfl⟩ | ⟨p, q, r, s, rfl⟩ := ha.eq_cases <;>
    obtain ⟨p', rfl⟩ | ⟨p', q', rfl⟩ | ⟨p', q', r', s', rfl⟩ := hb.eq_cases
  case inl.inl => exact Or.inl ⟨p, p', rfl, rfl⟩
  all_goals
    refine Or.inr ⟨by simp, ?_, ?_⟩
    · simp [jointHeight, height]
    · simp [needsQuaternion, kind_ofRat_ne, jointSize]

/-- The components of two exact numbers that are combined as complex numbers. -/
theorem WellFormedExact.complexParts {a b : Number} (ha : a.WellFormedExact)
    (hb : b.WellFormedExact) (h : needsQuaternion a b = false) :
    (a.asComplex = (ofRat a.exactValue.re, ofRat a.exactValue.imI) ∧
      b.asComplex = (ofRat b.exactValue.re, ofRat b.exactValue.imI)) ∧
      (a.exactValue.imJ = 0 ∧ a.exactValue.imK = 0) ∧
      (b.exactValue.imJ = 0 ∧ b.exactValue.imK = 0) := by
  have hkinds : a.kind ≠ .quaternion ∧ b.kind ≠ .quaternion := by
    simpa [needsQuaternion] using h
  obtain ⟨hac, haz⟩ := ha.asComplex_eq hkinds.1
  obtain ⟨hbc, hbz⟩ := hb.asComplex_eq hkinds.2
  exact ⟨⟨hac, hbc⟩, haz, hbz⟩

/-- Numbers are combined component by component. -/
theorem zipWithin_gives {op : ScalarOperation} {f : ℚ → ℚ → ℚ} (h : op.Exact f)
    (hzero : f 0 0 = 0) {a b : Number} (ha : a.WellFormedExact) (hb : b.WellFormedExact) :
    Gives (zipWithin op.apply (jointHeight a b) a b)
      (ofAxes (f a.exactValue.re b.exactValue.re) (f a.exactValue.imI b.exactValue.imI)
        (f a.exactValue.imJ b.exactValue.imJ) (f a.exactValue.imK b.exactValue.imK))
      (jointSize a b) := by
  obtain ⟨p, q, rfl, rfl⟩ | ⟨hnot, hheight, ⟨hshape, hsize⟩ | ⟨hshape, hsize⟩⟩ := ha.shapes hb
  · rw [zipWithin_ofRat _ p q h, exactValue_ofRat, exactValue_ofRat]
    simp only [ofAxes_re, ofAxes_imI, ofAxes_imJ, ofAxes_imK, hzero]
    exact gives_ofRat (f p q)
  · rw [hheight, hsize, zipWithin, if_pos hshape, ha.asQuaternion_eq, hb.asQuaternion_eq]
    · simp only [zipWithin_ofRat _ _ _ h]
      exact gives_quaternion (ofAxes _ _ _ _)
    · exact hnot
  · obtain ⟨⟨hac, hbc⟩, ⟨haj, hak⟩, hbj, hbk⟩ := ha.complexParts hb hshape
    rw [hheight, hsize, zipWithin, hshape, hac, hbc, haj, hak, hbj, hbk, hzero]
    · simp only [zipWithin_ofRat _ _ _ h]
      exact gives_complex _ _
    · exact hnot

theorem add_gives {a b : Number} (ha : a.WellFormedExact) (hb : b.WellFormedExact) :
    Gives (a.add b) (a.exactValue + b.exactValue) (jointSize a b) :=
  zipWithin_gives ScalarOperation.exact_add (add_zero 0) ha hb

theorem sub_gives {a b : Number} (ha : a.WellFormedExact) (hb : b.WellFormedExact) :
    Gives (a.sub b) (a.exactValue - b.exactValue) (jointSize a b) :=
  zipWithin_gives ScalarOperation.exact_sub (sub_zero 0) ha hb

/-- A term with the sign that precedes it. -/
def signed (plus : Bool) (q : ℚ) : ℚ :=
  if plus then q else -q

/-- A sum of four signed terms, such as the components of a product of quaternions. -/
theorem total_ofRat (s₁ s₂ s₃ s₄ : Bool) (p q r t : ℚ) :
    total [(s₁, .ok (ofRat p)), (s₂, .ok (ofRat q)), (s₃, .ok (ofRat r)), (s₄, .ok (ofRat t))] =
      .ok (ofRat (signed s₁ p + signed s₂ q + signed s₃ r + signed s₄ t)) := by
  have hstep : ∀ (plus : Bool) (x y : ℚ),
      (if plus then add (ofRat x) (ofRat y) else sub (ofRat x) (ofRat y)) =
        .ok (ofRat (x + signed plus y)) := by
    intro plus x y
    cases plus <;> simp [signed, sub_eq_add_neg]
  rw [total, zero_eq_ofRat]
  simp only [List.foldlM_cons, List.foldlM_nil, hstep, ok_bind, zero_add]
  rfl

theorem hamilton_gives {mul : Number → Number → Except Fault Number}
    (hmul : ∀ p q, mul (ofRat p) (ofRat q) = .ok (ofRat (p * q))) {a b : Number}
    (ha : a.WellFormedExact) (hb : b.WellFormedExact) :
    hamilton mul a b = .ok (quaternion (ofRat (a.exactValue * b.exactValue).re)
      (ofRat (a.exactValue * b.exactValue).imI) (ofRat (a.exactValue * b.exactValue).imJ)
      (ofRat (a.exactValue * b.exactValue).imK)) := by
  unfold hamilton
  rw [ha.asQuaternion_eq, hb.asQuaternion_eq]
  simp only [hmul]
  generalize a.exactValue = x
  generalize b.exactValue = y
  simp only [total_ofRat, ok_bind, signed, if_true, Bool.false_eq_true, if_false, ← sub_eq_add_neg,
    ← re_mul, ← imI_mul, ← imJ_mul, ← imK_mul]
  rfl

theorem mul_gives {a b : Number} (ha : a.WellFormedExact) (hb : b.WellFormedExact) :
    Gives (a.mul b) (a.exactValue * b.exactValue) (jointSize a b) := by
  obtain ⟨p, q, rfl, rfl⟩ | ⟨hnot, hheight, ⟨hshape, hsize⟩ | ⟨hshape, hsize⟩⟩ := ha.shapes hb
  · rw [mul_ofRat, exactValue_ofRat, exactValue_ofRat]
    refine (gives_ofRat (p * q)).of_eq ?_
    apply Quaternion.ext <;> simp
  · rw [mul, hheight, hsize, mulWithin, if_pos hshape, hamilton_gives (mulWithin_ofRat 0) ha hb]
    · exact gives_quaternion _
    · exact hnot
  · obtain ⟨⟨hac, hbc⟩, ⟨haj, hak⟩, hbj, hbk⟩ := ha.complexParts hb hshape
    rw [mul, hheight, hsize, mulWithin, hshape, hac, hbc]
    · simp only [mulWithin_ofRat, ok_bind, sub_ofRat, add_ofRat]
      refine (gives_complex _ _).of_eq ?_
      apply Quaternion.ext <;> simp [haj, hak, hbj, hbk]
    · exact hnot

theorem neg_gives {a : Number} (ha : a.WellFormedExact) :
    Gives a.neg (-a.exactValue) a.components.length := by
  obtain ⟨p, rfl⟩ | ⟨p, q, rfl⟩ | ⟨p, q, r, s, rfl⟩ := ha.eq_cases
  · rw [neg_ofRat, exactValue_ofRat]
    refine (gives_ofRat (-p)).of_eq ?_
    apply Quaternion.ext <;> simp
  · rw [neg, neg_ofRat, neg_ofRat, exactValue_complex]
    refine (gives_complex (-p) (-q)).of_eq ?_
    apply Quaternion.ext <;> simp
  · rw [neg, neg_ofRat, neg_ofRat, neg_ofRat, neg_ofRat, exactValue_quaternion]
    exact gives_quaternion (-ofAxes p q r s)

theorem conjugate_gives {a : Number} (ha : a.WellFormedExact) :
    Gives a.conjugate (star a.exactValue) a.components.length := by
  obtain ⟨p, rfl⟩ | ⟨p, q, rfl⟩ | ⟨p, q, r, s, rfl⟩ := ha.eq_cases
  · rw [exactValue_ofRat]
    refine (gives_ofRat p).of_eq ?_
    apply Quaternion.ext <;> simp
  · rw [conjugate, neg_ofRat, exactValue_complex]
    refine (gives_complex p (-q)).of_eq ?_
    apply Quaternion.ext <;> simp
  · rw [conjugate, neg_ofRat, neg_ofRat, neg_ofRat, exactValue_quaternion]
    have h := gives_quaternion (star (ofAxes p q r s))
    simpa using h

/-- The squared norm is the sum of the squares of the components. -/
theorem normSquared_eq {a : Number} (ha : a.WellFormedExact) :
    a.normSquared = .ok (ofRat (normSq a.exactValue)) := by
  rw [normSquared, zero_eq_ofRat, normSq_def']
  obtain ⟨p, rfl⟩ | ⟨p, q, rfl⟩ | ⟨p, q, r, s, rfl⟩ := ha.eq_cases
  · simp [pow_two]
  · simp [pow_two]
  · simp [pow_two]

/-- A quotient of quaternions, component by component. -/
theorem mul_inv_eq (x y : ℍ[ℚ]) :
    x * y⁻¹ = ofAxes ((x * star y).re / normSq y) ((x * star y).imI / normSq y)
      ((x * star y).imJ / normSq y) ((x * star y).imK / normSq y) := by
  rw [Quaternion.inv_def, mul_smul_comm]
  apply Quaternion.ext <;> simp [div_eq_inv_mul]

/-- What a quotient is to be: a fault if the divisor is zero, else an exact number. -/
def Divides (r : Except Fault Number) (x y : ℍ[ℚ]) (size : Nat) : Prop :=
  (y = 0 → ∃ issue, r = .error (.divisionByZero issue)) ∧ (y ≠ 0 → Gives r (x * y⁻¹) size)

theorem isZero_normSq (z : ℍ[ℚ]) : (ofRat (normSq z)).isZero = true ↔ z = 0 := by
  rw [isZero_ofRat, decide_eq_true_eq, normSq_eq_zero]

theorem div_quaternion {a b : Number} (ha : a.WellFormedExact) (hb : b.WellFormedExact)
    (hnot : ∀ s t, a = scalar s → b = scalar t → False) (hshape : needsQuaternion a b = true) :
    Divides (divWithin 1 a b) a.exactValue b.exactValue 4 := by
  obtain ⟨d, hd, hdw, hdv, -⟩ := gives_quaternion b.exactValue
  cases hd
  obtain ⟨c, hc, hcw, hcv, -⟩ := conjugate_gives hdw
  rw [divWithin, if_pos hshape, hb.asQuaternion_eq]
  · simp only [normSquared_eq hdw, ok_bind, hdv]
    constructor
    · intro hzero
      rw [if_pos ((isZero_normSq _).mpr hzero)]
      exact ⟨_, rfl⟩
    · intro hzero
      have hnorm : normSq b.exactValue ≠ 0 := normSq_ne_zero.mpr hzero
      rw [if_neg (mt (isZero_normSq _).mp hzero), hc, mul_inv_eq]
      simp only [ok_bind, hamilton_gives mul_ofRat ha hcw, asQuaternion, hcv, hdv,
        divWithin_ofRat _ _ hnorm]
      exact gives_quaternion (ofAxes _ _ _ _)
  · exact hnot

theorem div_complex {a b : Number} (ha : a.WellFormedExact) (hb : b.WellFormedExact)
    (hnot : ∀ s t, a = scalar s → b = scalar t → False) (hshape : needsQuaternion a b = false) :
    Divides (divWithin 1 a b) a.exactValue b.exactValue 2 := by
  obtain ⟨⟨hac, hbc⟩, ⟨haj, hak⟩, hbj, hbk⟩ := ha.complexParts hb hshape
  obtain ⟨d, hd, hdw, hdv, -⟩ := gives_complex b.exactValue.re b.exactValue.imI
  cases hd
  have hvalue : ofAxes b.exactValue.re b.exactValue.imI 0 0 = b.exactValue := by
    apply Quaternion.ext <;> simp [hbj, hbk]
  rw [divWithin, hshape, hac, hbc]
  · simp only [normSquared_eq hdw, ok_bind, hdv, hvalue, Bool.false_eq_true, if_false]
    constructor
    · intro hzero
      rw [if_pos ((isZero_normSq _).mpr hzero)]
      exact ⟨_, rfl⟩
    · intro hzero
      have hnorm : normSq b.exactValue ≠ 0 := normSq_ne_zero.mpr hzero
      rw [if_neg (mt (isZero_normSq _).mp hzero), mul_inv_eq]
      simp only [ok_bind, mul_ofRat, add_ofRat, sub_ofRat, divWithin_ofRat _ _ hnorm]
      refine (gives_complex _ _).of_eq ?_
      apply Quaternion.ext <;> simp [haj, hak, hbj, hbk, sub_eq_add_neg, add_comm]
  · exact hnot

theorem div_divides {a b : Number} (ha : a.WellFormedExact) (hb : b.WellFormedExact) :
    Divides (a.div b) a.exactValue b.exactValue (jointSize a b) := by
  obtain ⟨p, q, rfl, rfl⟩ | ⟨hnot, hheight, ⟨hshape, hsize⟩ | ⟨hshape, hsize⟩⟩ := ha.shapes hb
  · rw [exactValue_ofRat, exactValue_ofRat]
    constructor
    · intro hzero
      have hq : q = 0 := congrArg QuaternionAlgebra.re hzero
      rw [hq]
      exact ⟨_, divWithin_ofRat_zero _ p⟩
    · intro hzero
      have hq : q ≠ 0 := by
        rintro rfl
        exact hzero rfl
      rw [div, divWithin_ofRat _ p hq]
      refine (gives_ofRat (p / q)).of_eq ?_
      rw [mul_inv_eq, normSq_def']
      apply Quaternion.ext <;> simp [pow_two, mul_div_mul_right p q hq]
  · rw [div, hheight, hsize]
    exact div_quaternion ha hb hnot hshape
  · rw [div, hheight, hsize]
    exact div_complex ha hb hnot hshape

theorem allEqual_ofRat {equal : Number → Number → Except Fault Bool}
    (h : ∀ p q, equal (ofRat p) (ofRat q) = .ok (decide (p = q))) (pairs : List (ℚ × ℚ)) :
    allEqual equal (pairs.map fun pair => (ofRat pair.1, ofRat pair.2)) =
      .ok (decide (∀ pair ∈ pairs, pair.1 = pair.2)) := by
  induction pairs with
  | nil => rfl
  | cons pair rest ih =>
    rw [List.map_cons, allEqual, h, ok_bind, ih]
    by_cases hpair : pair.1 = pair.2
    · simp [hpair]
    · simp [hpair]
      rfl

/-- Equality compares the values. -/
theorem equal_eq {a b : Number} (ha : a.WellFormedExact) (hb : b.WellFormedExact) :
    ∃ answer, a.equal b = .ok answer ∧ (answer = true ↔ a.exactValue = b.exactValue) := by
  obtain ⟨p, q, rfl, rfl⟩ | ⟨hnot, hheight, ⟨hshape, -⟩ | ⟨hshape, -⟩⟩ := ha.shapes hb
  · refine ⟨_, equalWithin_ofRat _ p q, ?_⟩
    rw [Quaternion.ext_iff]
    simp
  · rw [equal, hheight, equalWithin, if_pos hshape, ha.asQuaternion_eq, hb.asQuaternion_eq]
    · refine ⟨_, allEqual_ofRat (equalWithin_ofRat 0) [(_, _), (_, _), (_, _), (_, _)], ?_⟩
      rw [Quaternion.ext_iff]
      simp
    · exact hnot
  · obtain ⟨⟨hac, hbc⟩, ⟨haj, hak⟩, hbj, hbk⟩ := ha.complexParts hb hshape
    rw [equal, hheight, equalWithin, hshape, hac, hbc]
    · refine ⟨_, allEqual_ofRat (equalWithin_ofRat 0) [(_, _), (_, _)], ?_⟩
      rw [Quaternion.ext_iff]
      simp [haj, hak, hbj, hbk]
    · exact hnot

/-- Exact numbers are closed under arithmetic, which is that of the quaternions over the
rational numbers; the only fault is that of a divisor that is zero. -/
theorem exact_arithmetic {a b : Number} (ha : a.WellFormedExact) (hb : b.WellFormedExact) :
    Gives (a.add b) (a.exactValue + b.exactValue) (jointSize a b) ∧
      Gives (a.sub b) (a.exactValue - b.exactValue) (jointSize a b) ∧
      Gives (a.mul b) (a.exactValue * b.exactValue) (jointSize a b) ∧
      ((∃ issue, a.div b = .error (.divisionByZero issue)) ↔ b.exactValue = 0) ∧
      (b.exactValue ≠ 0 → Gives (a.div b) (a.exactValue * b.exactValue⁻¹) (jointSize a b)) ∧
      Gives a.neg (-a.exactValue) a.components.length ∧
      Gives a.conjugate (star a.exactValue) a.components.length ∧
      ∃ answer, a.equal b = .ok answer ∧ (answer = true ↔ a.exactValue = b.exactValue) := by
  obtain ⟨hzero, hquotient⟩ := div_divides ha hb
  refine ⟨add_gives ha hb, sub_gives ha hb, mul_gives ha hb, ⟨?_, hzero⟩, hquotient, neg_gives ha,
    conjugate_gives ha, equal_eq ha hb⟩
  rintro ⟨issue, herror⟩
  by_contra hne
  obtain ⟨c, hc, -⟩ := hquotient hne
  rw [herror] at hc
  cases hc

/-- The largest integer of a word, moved past the word by a quaternion. -/
theorem exact_arithmetic_past_word :
    let a := complex (scalar (.int (2 ^ 63 - 1))) (scalar (.rational (1 / 2)))
    let b := quaternion (scalar (.int 1)) (scalar (.int 0)) (scalar (.bigint (2 ^ 63)))
      (scalar (.int (-1)))
    a.WellFormedExact ∧ b.WellFormedExact ∧
      Gives (a.add b) (ofAxes (2 ^ 63) (1 / 2) (2 ^ 63) (-1)) 4 ∧
      Gives (a.div b) (a.exactValue * b.exactValue⁻¹) 4 := by
  intro a b
  have hhalf : 1 < (1 / 2 : ℚ).den := by
    rw [one_div, Rat.inv_ofNat_den]
    decide
  have ha : a.WellFormedExact := ⟨by decide, hhalf⟩
  have hb : b.WellFormedExact := ⟨by decide, by decide, by decide, by decide⟩
  have hne : b.exactValue ≠ 0 := by
    intro hzero
    have hre : (1 : ℚ) = 0 := congrArg QuaternionAlgebra.re hzero
    cases hre
  obtain ⟨hsum, -, -, -, hquotient, -⟩ := exact_arithmetic ha hb
  refine ⟨ha, hb, hsum.of_eq ?_, hquotient hne⟩
  apply Quaternion.ext <;> norm_num [a, b, exactValue, Scalar.exactValue]

end TowerLisp.Number
