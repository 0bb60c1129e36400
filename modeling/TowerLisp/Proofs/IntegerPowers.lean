import Mathlib.Algebra.GroupWithZero.Basic
import TowerLisp.Number.Power
import TowerLisp.Proofs.ExactNumbers

/-!
Integer powers of exact numbers. Repeated squaring keeps the product of the result so far
and the power of the factor that is still due, whatever the shapes of the numbers and
although quaternions do not commute. So a power stands for the power of the base's value,
and the only fault is that of a negative power of zero.
-/

namespace TowerLisp.Number

open Quaternion

/-- Exact numbers of one shape are told apart by what they stand for. -/
theorem WellFormedExact.eq_of_exactValue {a b : Number} (ha : a.WellFormedExact)
    (hb : b.WellFormedExact) (hvalue : a.exactValue = b.exactValue)
    (hsize : a.components.length = b.components.length) : a = b := by
  obtain ⟨p, rfl⟩ | ⟨p, q, rfl⟩ | ⟨p, q, r, s, rfl⟩ := ha.eq_cases <;>
    obtain ⟨p', rfl⟩ | ⟨p', q', rfl⟩ | ⟨p', q', r', s', rfl⟩ := hb.eq_cases
  case inl.inl => simp_all [Quaternion.ext_iff]
  case inr.inl.inr.inl => simp_all [Quaternion.ext_iff]
  case inr.inr.inr.inr => simp_all [Quaternion.ext_iff]
  all_goals simp at hsize

/-- What a computation gives is determined by its value and its shape. -/
theorem Gives.eq_ok {r : Except Fault Number} {z : ℍ[ℚ]} {size : Nat} (h : Gives r z size)
    {c : Number} (hc : Gives (.ok c) z size) : r = .ok c := by
  obtain ⟨a, rfl, ha, hvalue, hsize⟩ := h
  obtain ⟨b, hb, hbw, hbvalue, hbsize⟩ := hc
  cases hb
  rw [ha.eq_of_exactValue hbw (hvalue.trans hbvalue.symm) (hsize.trans hbsize.symm)]

theorem Gives.of_ok {c : Number} {z : ℍ[ℚ]} {size : Nat} (h : Gives (.ok c) z size) :
    c.WellFormedExact ∧ c.exactValue = z ∧ c.components.length = size := by
  obtain ⟨a, ha, h⟩ := h
  cases ha
  exact h

theorem oneLike_gives {b : Number} (hb : b.WellFormedExact) :
    Gives (.ok b.oneLike) 1 b.components.length := by
  obtain ⟨p, rfl⟩ | ⟨p, q, rfl⟩ | ⟨p, q, r, s, rfl⟩ := hb.eq_cases
  · have hone : (ofRat p).oneLike = ofRat 1 := by
      obtain ⟨n, -, -, h⟩ | ⟨n, -, -, h⟩ | ⟨-, h⟩ := Scalar.ofRat_cases p
      all_goals
        rw [ofRat, h]
        rfl
    rw [hone]
    exact gives_ofRat 1
  · exact gives_complex 1 0
  · exact gives_quaternion 1

/-- A product of numbers of one shape. -/
theorem mul_gives_of_size {a b : Number} {size : Nat} (ha : a.WellFormedExact)
    (hb : b.WellFormedExact) (hasize : a.components.length = size)
    (hbsize : b.components.length = size) :
    Gives (a.mul b) (a.exactValue * b.exactValue) size := by
  have h := mul_gives ha hb
  rwa [jointSize, hasize, hbsize, max_self] at h

/-- One round: an odd exponent goes into the result, and the factor is squared for the next. -/
theorem powerLoop_succ (bits : Nat) (result factor : Number) {exponent : Nat}
    (hexponent : exponent ≠ 0) :
    powerLoop (bits + 1) result factor exponent =
      (if exponent % 2 = 1 then mul result factor else .ok result) >>= fun next =>
        (if exponent / 2 = 0 then .ok factor else mul factor factor) >>= fun square =>
          powerLoop bits next square (exponent / 2) := by
  rw [powerLoop, if_neg hexponent]
  by_cases hodd : exponent % 2 = 1 <;> by_cases hlast : exponent / 2 = 0
  all_goals simp only [hodd, hlast, if_true, if_false, pure_bind, ok_bind]

/-- The product of the result so far and the power of the factor that is due is kept. -/
theorem powerLoop_gives {size : Nat} (bits : Nat) {result factor : Number} {exponent : Nat}
    (hbits : exponent < 2 ^ bits) (hresult : result.WellFormedExact)
    (hfactor : factor.WellFormedExact) (hrsize : result.components.length = size)
    (hfsize : factor.components.length = size) :
    Gives (powerLoop bits result factor exponent)
      (result.exactValue * factor.exactValue ^ exponent) size := by
  induction bits generalizing result factor exponent with
  | zero =>
    obtain rfl : exponent = 0 := Nat.lt_one_iff.mp hbits
    rw [pow_zero, mul_one, powerLoop]
    exact ⟨result, rfl, hresult, rfl, hrsize⟩
  | succ bits ih =>
    by_cases hzero : exponent = 0
    · rw [powerLoop, if_pos hzero, hzero, pow_zero, mul_one]
      exact ⟨result, rfl, hresult, rfl, hrsize⟩
    have hhalf : exponent / 2 < 2 ^ bits := by
      rw [pow_succ] at hbits
      omega
    have htaken : Gives (if exponent % 2 = 1 then mul result factor else .ok result)
        (result.exactValue * factor.exactValue ^ (exponent % 2)) size := by
      obtain hodd | heven : exponent % 2 = 1 ∨ exponent % 2 = 0 := by omega
      · rw [if_pos hodd, hodd, pow_one]
        exact mul_gives_of_size hresult hfactor hrsize hfsize
      · rw [if_neg (by omega), heven, pow_zero, mul_one]
        exact ⟨result, rfl, hresult, rfl, hrsize⟩
    -- Without a further round the factor stays, but then its power is one either way.
    have hsquared : ∃ z, Gives (if exponent / 2 = 0 then .ok factor else mul factor factor) z size ∧
        z ^ (exponent / 2) = factor.exactValue ^ (2 * (exponent / 2)) := by
      split
      · rename_i hlast
        exact ⟨_, ⟨factor, rfl, hfactor, rfl, hfsize⟩, by simp [hlast]⟩
      · refine ⟨_, mul_gives_of_size hfactor hfactor hfsize hfsize, ?_⟩
        rw [← pow_two, pow_mul]
    obtain ⟨next, hnext, hnextw, hnextv, hnextsize⟩ := htaken
    obtain ⟨z, ⟨square, hsquare, hsquarew, rfl, hsquaresize⟩, hpower⟩ := hsquared
    rw [powerLoop_succ bits result factor hzero, hnext, ok_bind, hsquare, ok_bind]
    refine (ih hhalf hnextw hsquarew hnextsize hsquaresize).of_eq ?_
    rw [hnextv, hpower, mul_assoc, ← pow_add, Nat.mod_add_div]

theorem powerNat_gives {b : Number} (hb : b.WellFormedExact) (exponent : Nat) :
    Gives (b.powerNat exponent) (b.exactValue ^ exponent) b.components.length := by
  obtain ⟨hone, hvalue, hsize⟩ := (oneLike_gives hb).of_ok
  have h := powerLoop_gives (exponent.log2 + 1) Nat.lt_log2_self hone hb hsize rfl
  rwa [hvalue, one_mul] at h

/-- A power with an integer exponent is a fault for a negative power of zero, else an exact
number of the shape of its base. -/
theorem powerInt_cases {b : Number} (hb : b.WellFormedExact) (n : ℤ) :
    (b.exactValue = 0 ∧ n < 0 → ∃ issue, b.powerInt n = .error (.divisionByZero issue)) ∧
      (¬ (b.exactValue = 0 ∧ n < 0) →
        Gives (b.powerInt n) (b.exactValue ^ n) b.components.length) := by
  obtain ⟨p, hp, hpw, hpv, hpsize⟩ := powerNat_gives hb n.natAbs
  obtain ⟨hone, honev, honesize⟩ := (oneLike_gives hb).of_ok
  rw [powerInt, hp, ok_bind]
  by_cases hneg : n < 0
  · obtain ⟨hzero, hquotient⟩ := div_divides hone hpw
    have hnat : n.natAbs ≠ 0 := by omega
    have hpower : b.exactValue ^ n = (b.exactValue ^ n.natAbs)⁻¹ := by
      rw [← zpow_natCast, ← zpow_neg, Int.ofNat_natAbs_of_nonpos hneg.le, neg_neg]
    rw [if_pos hneg]
    constructor
    · rintro ⟨hb0, -⟩
      exact hzero (by rw [hpv, hb0, zero_pow hnat])
    · intro hnot
      have hb0 : b.exactValue ≠ 0 := fun h => hnot ⟨h, hneg⟩
      have h := hquotient (by rw [hpv]; exact pow_ne_zero _ hb0)
      rw [jointSize, honesize, hpsize, max_self] at h
      exact h.of_eq (by rw [honev, one_mul, hpv, hpower])
  · rw [if_neg hneg]
    have hpower : b.exactValue ^ n = b.exactValue ^ n.natAbs := by
      rw [← zpow_natCast, Int.natAbs_of_nonneg (not_lt.mp hneg)]
    exact ⟨fun h => absurd h.2 hneg, fun _ => ⟨p, rfl, hpw, hpv.trans hpower.symm, hpsize⟩⟩

theorem power_of_int? (b : Number) {e : Scalar} {n : ℤ} (he : e.int? = some n) :
    b.power (scalar e) = b.powerInt n := by
  simp [power, he]

/-- Powers of exact numbers with integer exponents are those of the quaternions over the
rational numbers, and exponents add up under products. -/
theorem integer_power {b : Number} (hb : b.WellFormedExact) :
    (∀ e n, Scalar.int? e = some n →
      ((∃ issue, b.power (scalar e) = .error (.divisionByZero issue)) ↔
        b.exactValue = 0 ∧ n < 0) ∧
      (¬ (b.exactValue = 0 ∧ n < 0) →
        Gives (b.power (scalar e)) (b.exactValue ^ n) b.components.length)) ∧
    ∀ d e f m n, Scalar.int? d = some m → Scalar.int? e = some n → Scalar.int? f = some (m + n) →
      ∀ x y z, b.power (scalar d) = .ok x → b.power (scalar e) = .ok y →
        b.power (scalar f) = .ok z → x.mul y = .ok z := by
  have hgives : ∀ {e n c}, Scalar.int? e = some n → b.power (scalar e) = .ok c →
      (b.exactValue = 0 → 0 ≤ n) ∧ Gives (.ok c) (b.exactValue ^ n) b.components.length := by
    intro e n c he hc
    obtain ⟨hfault, hpower⟩ := powerInt_cases hb n
    rw [power_of_int? b he] at hc
    have hdefined : ¬ (b.exactValue = 0 ∧ n < 0) := by
      intro hzero
      obtain ⟨issue, herror⟩ := hfault hzero
      rw [hc] at herror
      cases herror
    exact ⟨fun hzero => not_lt.mp fun hneg => hdefined ⟨hzero, hneg⟩, hc ▸ hpower hdefined⟩
  constructor
  · intro e n he
    rw [power_of_int? b he]
    obtain ⟨hfault, hpower⟩ := powerInt_cases hb n
    refine ⟨⟨?_, hfault⟩, hpower⟩
    rintro ⟨issue, herror⟩
    by_contra hdefined
    obtain ⟨c, hc, -⟩ := hpower hdefined
    rw [herror] at hc
    cases hc
  · intro d e f m n hd he hf x y z hx hy hz
    obtain ⟨hm, hxgives⟩ := hgives hd hx
    obtain ⟨hn, hygives⟩ := hgives he hy
    obtain ⟨-, hzgives⟩ := hgives hf hz
    obtain ⟨hxw, hxv, hxsize⟩ := hxgives.of_ok
    obtain ⟨hyw, hyv, hysize⟩ := hygives.of_ok
    have hadd : b.exactValue ^ (m + n) = b.exactValue ^ m * b.exactValue ^ n := by
      refine zpow_add' (or_iff_not_imp_left.mpr fun hzero => ?_)
      have hm0 := hm (not_not.mp hzero)
      have hn0 := hn (not_not.mp hzero)
      omega
    have hproduct := mul_gives_of_size hxw hyw hxsize hysize
    rw [hxv, hyv, ← hadd] at hproduct
    exact hproduct.eq_ok hzgives

/-- A quaternion with a component past the word, raised to a power and to its inverse. -/
theorem integer_power_past_word :
    let b := quaternion (scalar (.int 0)) (scalar (.bigint (2 ^ 63))) (scalar (.rational (1 / 2)))
      (scalar (.int (-1)))
    b.WellFormedExact ∧ Scalar.int? (.int (-3)) = some (-3) ∧ ¬ (b.exactValue = 0 ∧ (-3 : ℤ) < 0) ∧
      Gives (b.power (scalar (.int (-3)))) (b.exactValue ^ (-3 : ℤ)) 4 := by
  intro b
  have hhalf : 1 < (1 / 2 : ℚ).den := by
    rw [one_div, Rat.inv_ofNat_den]
    decide
  have hb : b.WellFormedExact := ⟨by decide, by decide, hhalf, by decide⟩
  have hne : ¬ (b.exactValue = 0 ∧ (-3 : ℤ) < 0) := by
    rintro ⟨hzero, -⟩
    have hk : (-1 : ℚ) = 0 := congrArg QuaternionAlgebra.imK hzero
    cases hk
  exact ⟨hb, rfl, hne, ((integer_power hb).1 (.int (-3)) (-3) rfl).2 hne⟩

end TowerLisp.Number
