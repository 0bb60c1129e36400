import Mathlib.Algebra.Order.Field.Rat
import Mathlib.Data.Rat.Lemmas
import TowerLisp.Number.Compare

/-!
Exact scalars and the rational numbers. `Scalar.ofRat` gives each rational number
one representation, which is the well-formed one; sums, products, quotients and
comparisons of such scalars are those of the rational numbers, and their results
are again in that representation.
-/

namespace TowerLisp

namespace Scalar

/-- Integers are told apart by the word that holds them, and fractions are no integers.
A fraction is in lowest terms by its type. -/
def WellFormedExact : Scalar → Prop
  | int n => -2 ^ 63 ≤ n ∧ n ≤ 2 ^ 63 - 1
  | bigint n => ¬ (-2 ^ 63 ≤ n ∧ n ≤ 2 ^ 63 - 1)
  | rational q => 1 < q.den
  | float _ => False
  | bigfloat _ => False

instance : DecidablePred WellFormedExact
  | int _ => inferInstanceAs (Decidable (_ ∧ _))
  | bigint _ => inferInstanceAs (Decidable (¬ (_ ∧ _)))
  | rational _ => inferInstanceAs (Decidable (_ < _))
  | float _ => inferInstanceAs (Decidable False)
  | bigfloat _ => inferInstanceAs (Decidable False)

/-- The value of an exact scalar. -/
def exactValue : Scalar → ℚ
  | int n => n
  | bigint n => n
  | rational q => q
  | float _ => 0
  | bigfloat _ => 0

theorem inWord_iff (n : ℤ) : inWord n = true ↔ -2 ^ 63 ≤ n ∧ n ≤ 2 ^ 63 - 1 := by
  simp only [inWord, Bool.and_eq_true, decide_eq_true_eq]
  omega

/-- The three forms that a rational number takes. -/
theorem ofRat_cases (q : ℚ) :
    (∃ n : ℤ, q = n ∧ inWord n = true ∧ ofRat q = int n) ∨
      (∃ n : ℤ, q = n ∧ inWord n = false ∧ ofRat q = bigint n) ∨
      (q.den ≠ 1 ∧ ofRat q = rational q) := by
  by_cases hden : q.den = 1
  · have hq : q = q.num := (Rat.den_eq_one_iff q).mp hden |>.symm
    cases hword : inWord q.num with
    | true => exact Or.inl ⟨q.num, hq, hword, by simp [ofRat, hden, ofInt, hword]⟩
    | false => exact Or.inr (Or.inl ⟨q.num, hq, hword, by simp [ofRat, hden, ofInt, hword]⟩)
  · exact Or.inr (Or.inr ⟨hden, by simp [ofRat, hden]⟩)

theorem ofRat_intCast (n : ℤ) : ofRat n = ofInt n := by
  simp [ofRat]

@[simp] theorem exactValue_ofRat (q : ℚ) : (ofRat q).exactValue = q := by
  obtain ⟨n, hq, -, h⟩ | ⟨n, hq, -, h⟩ | ⟨-, h⟩ := ofRat_cases q
  · rw [h]
    exact hq.symm
  · rw [h]
    exact hq.symm
  · rw [h]
    rfl

theorem wellFormedExact_ofRat (q : ℚ) : (ofRat q).WellFormedExact := by
  obtain ⟨n, -, hword, h⟩ | ⟨n, -, hword, h⟩ | ⟨hden, h⟩ := ofRat_cases q
  · rw [h]
    exact (inWord_iff n).mp hword
  · rw [h]
    intro hn
    rw [(inWord_iff n).mpr hn] at hword
    cases hword
  · rw [h]
    have hpos := q.den_pos
    change 1 < q.den
    omega

/-- A well-formed exact scalar is the representation of its value. -/
theorem WellFormedExact.eq_ofRat {s : Scalar} (h : s.WellFormedExact) :
    s = ofRat s.exactValue := by
  cases s with
  | int n =>
    have hword : inWord n = true := (inWord_iff n).mpr h
    simp [exactValue, ofRat_intCast, ofInt, hword]
  | bigint n =>
    have hword : inWord n = false := by
      rw [Bool.eq_false_iff]
      intro htrue
      exact h ((inWord_iff n).mp htrue)
    simp [exactValue, ofRat_intCast, ofInt, hword]
  | rational q =>
    have hden : q.den ≠ 1 := Nat.ne_of_gt h
    simp [exactValue, ofRat, hden]
  | float x => exact h.elim
  | bigfloat d => exact h.elim

theorem eq_intCast_of_int? {q : ℚ} {n : ℤ} (h : (ofRat q).int? = some n) : q = n := by
  obtain ⟨m, hq, -, hform⟩ | ⟨m, hq, -, hform⟩ | ⟨-, hform⟩ := ofRat_cases q
  · rw [hform] at h
    cases h
    exact hq
  · rw [hform] at h
    cases h
    exact hq
  · rw [hform] at h
    cases h

@[simp] theorem toRat_ofRat (q : ℚ) : (ofRat q).toRat = .ok q := by
  obtain ⟨n, rfl, -, h⟩ | ⟨n, rfl, -, h⟩ | ⟨-, h⟩ := ofRat_cases q
  · simp [h, toRat, Rat.mkRat_one]
  · simp [h, toRat, Rat.mkRat_one]
  · simp [h, toRat]

/-- Exact scalars are combined as exact scalars. -/
theorem join_ofRat (p q : ℚ) :
    (ofRat p).join (ofRat q) ≠ .float ∧ (ofRat p).join (ofRat q) ≠ .bigfloat := by
  have hkind : ∀ r : ℚ, (ofRat r).kind = .int ∨ (ofRat r).kind = .bigint ∨
      (ofRat r).kind = .rational := by
    intro r
    obtain ⟨n, -, -, h⟩ | ⟨n, -, -, h⟩ | ⟨-, h⟩ := ofRat_cases r <;> simp [h, kind]
  have hp := hkind p
  have hq := hkind q
  unfold join
  generalize (ofRat p).kind = a at hp ⊢
  generalize (ofRat q).kind = b at hq ⊢
  rcases hp with rfl | rfl | rfl <;> rcases hq with rfl | rfl | rfl <;> simp [Kind.join, Kind.rank]

theorem isZero_ofRat (q : ℚ) : (ofRat q).isZero = decide (q = 0) := by
  obtain ⟨n, rfl, -, h⟩ | ⟨n, rfl, -, h⟩ | ⟨-, h⟩ := ofRat_cases q
  · simp [h, isZero, beq_eq_decide]
  · simp [h, isZero, beq_eq_decide]
  · simp [h, isZero, beq_eq_decide, Rat.num_eq_zero]

theorem neg_ofRat (q : ℚ) : (ofRat q).neg = .ok (ofRat (-q)) := by
  obtain ⟨n, rfl, -, h⟩ | ⟨n, rfl, -, h⟩ | ⟨hden, h⟩ := ofRat_cases q
  · rw [h, ← Int.cast_neg, ofRat_intCast]
    rfl
  · rw [h, ← Int.cast_neg, ofRat_intCast]
    rfl
  · rw [h, neg, ofRat, if_neg (by simpa using hden)]
    rfl

/-- A quotient by a scalar that is not zero. -/
theorem div_ofRat (p : ℚ) {q : ℚ} (hq : q ≠ 0) :
    (ofRat p).div (ofRat q) = .ok (ofRat (p / q)) := by
  have hnum : q.num ≠ 0 := by simpa using hq
  obtain ⟨hfloat, hbigfloat⟩ := join_ofRat p q
  unfold div
  split
  · contradiction
  · contradiction
  · rw [toRat_ofRat, toRat_ofRat]
    change (if q.num = 0 then divisionByZero else Except.ok (ofRat (Rat.div p q))) = _
    rw [if_neg hnum]
    rfl

theorem div_ofRat_zero (p : ℚ) : (ofRat p).div (ofRat 0) = divisionByZero := by
  obtain ⟨hfloat, hbigfloat⟩ := join_ofRat p 0
  unfold div
  split
  · contradiction
  · contradiction
  · rw [toRat_ofRat, toRat_ofRat]
    rfl

theorem compareRat_eq (p q : ℚ) :
    compareRat p q = if p < q then .lt else if q < p then .gt else .eq := rfl

/-- Exact scalars are ordered by their values. -/
theorem compare_ofRat (p q : ℚ) :
    (ofRat p).compare (ofRat q) = .ok (if p < q then .lt else if q < p then .gt else .eq) := by
  obtain ⟨hfloat, hbigfloat⟩ := join_ofRat p q
  unfold compare
  split
  · rename_i m n hp hq
    rw [eq_intCast_of_int? hp, eq_intCast_of_int? hq, Int.compare_eq_ite_lt]
    simp only [Rat.intCast_lt_intCast]
  · split
    · contradiction
    · contradiction
    · rw [toRat_ofRat, toRat_ofRat, ← compareRat_eq]
      rfl

end Scalar

namespace ScalarOperation

/-- An operation that does to integers and to fractions what `f` does to rational
numbers. -/
structure Exact (op : ScalarOperation) (f : ℚ → ℚ → ℚ) : Prop where
  onInt : ∀ m n : ℤ, f m n = (op.onInt m n : ℤ)
  onRat : ∀ p q : ℚ, f p q = op.onRat p q

theorem exact_add : add.Exact (· + ·) :=
  ⟨fun m n => (Int.cast_add m n).symm, fun _ _ => rfl⟩

theorem exact_sub : sub.Exact (· - ·) :=
  ⟨fun m n => (Int.cast_sub m n).symm, fun _ _ => rfl⟩

theorem exact_mul : mul.Exact (· * ·) :=
  ⟨fun m n => (Int.cast_mul m n).symm, fun _ _ => rfl⟩

theorem Exact.apply_ofRat {op : ScalarOperation} {f : ℚ → ℚ → ℚ} (h : op.Exact f) (p q : ℚ) :
    op.apply (.ofRat p) (.ofRat q) = .ok (.ofRat (f p q)) := by
  obtain ⟨hfloat, hbigfloat⟩ := Scalar.join_ofRat p q
  unfold apply
  split
  · rename_i m n hp hq
    rw [Scalar.eq_intCast_of_int? hp, Scalar.eq_intCast_of_int? hq, h.onInt, Scalar.ofRat_intCast]
  · split
    · contradiction
    · contradiction
    · rw [Scalar.toRat_ofRat, Scalar.toRat_ofRat, h.onRat]
      rfl

end ScalarOperation

end TowerLisp
