import Mathlib.Algebra.Order.Ring.Nat
import Mathlib.Tactic.GCongr
import Mathlib.Tactic.Positivity
import TowerLisp.Binary64.Shortest

/-!
The search for the fewest digits. The grids get finer from step to step, and the last one has a
multiple in the neighbourhood of every double; so the digits of a double that is not zero are
those of a number that is not zero.
-/

namespace TowerLisp

namespace Binary64

/-- Powers of ten and of two, by the bounds `10 ^ 3 ≤ 2 ^ 10` and `2 ^ 33 ≤ 10 ^ 10`. -/
theorem unit_le_scale {k s : ℤ} (hup : 0 ≤ s → 10 * s ≤ 3 * k)
    (hdown : s ≤ 0 → 10 * -k ≤ 33 * -s) :
    2 ^ (-k).toNat * 10 ^ s.toNat ≤ 2 ^ k.toNat * 10 ^ (-s).toNat := by
  by_cases hs : 0 ≤ s
  · have hk := hup hs
    obtain ⟨a, rfl⟩ := Int.eq_ofNat_of_zero_le hs
    obtain ⟨b, rfl⟩ := Int.eq_ofNat_of_zero_le (show 0 ≤ k by omega)
    simp only [Int.toNat_neg_natCast, Int.toNat_natCast, pow_zero, one_mul, mul_one]
    refine (Nat.pow_le_pow_iff_left (show 10 ≠ 0 by decide)).mp ?_
    calc (10 ^ a) ^ 10 = 10 ^ (10 * a) := by rw [← pow_mul, mul_comm]
      _ ≤ 10 ^ (3 * b) := Nat.pow_le_pow_right (by decide) (by omega)
      _ = (10 ^ 3) ^ b := pow_mul _ _ _
      _ ≤ (2 ^ 10) ^ b := Nat.pow_le_pow_left (by decide) b
      _ = (2 ^ b) ^ 10 := by rw [← pow_mul, ← pow_mul, mul_comm]
  · have hk := hdown (by omega)
    obtain ⟨a, rfl⟩ := Int.exists_eq_neg_ofNat (show s ≤ 0 by omega)
    simp only [Int.toNat_neg_natCast, neg_neg, Int.toNat_natCast, pow_zero, mul_one]
    by_cases hpos : 0 ≤ k
    · obtain ⟨b, rfl⟩ := Int.eq_ofNat_of_zero_le hpos
      simp only [Int.toNat_neg_natCast, pow_zero]
      exact Nat.succ_le_of_lt (by positivity)
    · obtain ⟨b, rfl⟩ := Int.exists_eq_neg_ofNat (show k ≤ 0 by omega)
      simp only [Int.toNat_neg_natCast, neg_neg, Int.toNat_natCast, pow_zero, one_mul]
      refine (Nat.pow_le_pow_iff_left (show 33 ≠ 0 by decide)).mp ?_
      calc (2 ^ b) ^ 33 = (2 ^ 33) ^ b := by rw [← pow_mul, ← pow_mul, mul_comm]
        _ ≤ (10 ^ 10) ^ b := Nat.pow_le_pow_left (by decide) b
        _ = 10 ^ (10 * b) := (pow_mul _ _ _).symm
        _ ≤ 10 ^ (33 * a) := Nat.pow_le_pow_right (by decide) (by omega)
        _ = (10 ^ a) ^ 33 := by rw [← pow_mul, mul_comm]

namespace Neighbourhood

variable {h : Neighbourhood} {scale unit k : ℕ}

/-- A number, in steps of a scale, rounds to the double. -/
def Inside (h : Neighbourhood) (scale x : ℕ) : Bool :=
  if h.closed then h.low * scale ≤ x && x ≤ h.high * scale
  else h.low * scale < x && x < h.high * scale

theorem low_le_of_inside {x : ℕ} (hx : h.Inside scale x = true) : h.low * scale ≤ x := by
  unfold Inside at hx
  split at hx <;> simp only [Bool.and_eq_true, decide_eq_true_eq] at hx <;> omega

theorem inside_of_between {x : ℕ} (hlow : h.low * scale < x) (hhigh : x < h.high * scale) :
    h.Inside scale x = true := by
  unfold Inside
  split <;> simp only [Bool.and_eq_true, decide_eq_true_eq] <;> omega

/-- A multiple that is found is in the neighbourhood, and not above the value by more than one. -/
theorem nearestMultiple?_bounds (hfound : h.nearestMultiple? scale unit = some k) :
    h.Inside scale (k * unit) = true ∧ k ≤ h.value * scale / unit + 1 := by
  unfold nearestMultiple? at hfound
  dsimp only at hfound
  split at hfound
  · rename_i hbelow habove
    cases hfound
    split
    · exact ⟨habove, le_rfl⟩
    · exact ⟨hbelow, Nat.le_succ _⟩
  · rename_i hbelow habove
    cases hfound
    exact ⟨hbelow, Nat.le_succ _⟩
  · rename_i hbelow habove
    cases hfound
    exact ⟨habove, le_rfl⟩
  · cases hfound

/-- A grid that is finer than the distance to the lower end has a multiple. -/
theorem nearestMultiple?_isSome (hlow : h.low + 1 ≤ h.value) (hhigh : h.value < h.high)
    (hunit : 0 < unit) (hle : unit ≤ scale) : (h.nearestMultiple? scale unit).isSome = true := by
  have hbelow : h.Inside scale (h.value * scale / unit * unit) = true := by
    have hsplit := Nat.div_add_mod' (h.value * scale) unit
    have hrest := Nat.mod_lt (h.value * scale) hunit
    have hlow' := Nat.mul_le_mul_right scale hlow
    have hhigh' := Nat.mul_lt_mul_of_pos_right hhigh (hunit.trans_le hle)
    rw [add_mul, one_mul] at hlow'
    exact inside_of_between (by omega) (by omega)
  unfold nearestMultiple?
  dsimp only
  split
  · rfl
  · rfl
  · rfl
  · rename_i hnone _
    exact absurd (hbelow.symm.trans hnone) nofun

end Neighbourhood

section Search

variable {h : Neighbourhood} {m : ℕ} {e s : ℤ}

/-- What is looked for on the grid of a power of ten. -/
def onGrid (h : Neighbourhood) (e s : ℤ) : Option ℕ :=
  h.nearestMultiple? (2 ^ (e - 2).toNat * 10 ^ (-s).toNat) (2 ^ (2 - e).toNat * 10 ^ s.toNat)

theorem searchGrid_succ (h : Neighbourhood) (e s : ℤ) (fuel : ℕ) :
    searchGrid h e (fuel + 1) s =
      match onGrid h e s with
      | some d => (d, s)
      | none => searchGrid h e fuel (s - 1) :=
  rfl

/-- If there is something on one of the grids, the search ends on that grid or a coarser one. -/
theorem searchGrid_spec {fuel j : ℕ} (hj : j < fuel) (hfound : (onGrid h e (s - j)).isSome = true) :
    ∃ i ≤ j, onGrid h e (s - i) = some (searchGrid h e fuel s).1 ∧
      (searchGrid h e fuel s).2 = s - i := by
  induction fuel generalizing s j with
  | zero => omega
  | succ fuel ih =>
    rw [searchGrid_succ]
    cases hhere : onGrid h e s with
    | some d => exact ⟨0, Nat.zero_le j, by simpa using hhere, by simp⟩
    | none =>
      obtain ⟨j, rfl⟩ : ∃ i, j = i + 1 := by
        refine Nat.exists_eq_succ_of_ne_zero ?_
        rintro rfl
        simp [hhere] at hfound
      have hnext : s - (j + 1 : ℕ) = s - 1 - j := by omega
      rw [hnext] at hfound
      obtain ⟨i, hi, hgrid, hexponent⟩ := ih (by omega) hfound
      refine ⟨i + 1, by omega, ?_, ?_⟩
      · rw [show s - (i + 1 : ℕ) = s - 1 - i by omega]
        exact hgrid
      · rw [hexponent]
        omega

/-- Zeros at the end of a number go to its exponent. -/
theorem stripZeros_spec (fuel d : ℕ) (s : ℤ) :
    ∃ k ≤ fuel, (stripZeros fuel d s).2 = s + k ∧ d = (stripZeros fuel d s).1 * 10 ^ k := by
  induction fuel generalizing d s with
  | zero => exact ⟨0, le_rfl, by simp [stripZeros], by simp [stripZeros]⟩
  | succ fuel ih =>
    rw [stripZeros]
    split
    · next hten =>
      obtain ⟨k, hk, hexponent, hvalue⟩ := ih (d / 10) (s + 1)
      refine ⟨k + 1, by omega, by rw [hexponent]; omega, ?_⟩
      rw [pow_succ, ← mul_assoc, ← hvalue]
      omega
    · exact ⟨0, Nat.zero_le _, by simp, by simp⟩

theorem neighbourhood_spec (hm : 0 < m) :
    0 < (neighbourhood m e).low ∧ (neighbourhood m e).low + 1 ≤ (neighbourhood m e).value ∧
      (neighbourhood m e).value < (neighbourhood m e).high := by
  unfold neighbourhood
  dsimp only
  split <;> omega

theorem onGrid_bounds {d : ℕ} (hm : 0 < m) (hgrid : onGrid (neighbourhood m e) e s = some d) :
    0 < d ∧ d ≤ 4 * m * (2 ^ (e - 2).toNat * 10 ^ (-s).toNat) + 1 := by
  obtain ⟨hinside, hle⟩ := Neighbourhood.nearestMultiple?_bounds hgrid
  have hlow := Neighbourhood.low_le_of_inside hinside
  refine ⟨Nat.pos_of_ne_zero ?_, hle.trans (Nat.succ_le_succ (Nat.div_le_self _ _))⟩
  rintro rfl
  obtain ⟨hpos, -⟩ := neighbourhood_spec (e := e) hm
  have : 0 < (neighbourhood m e).low * (2 ^ (e - 2).toNat * 10 ^ (-s).toNat) := by positivity
  omega

theorem mul_le_pow {a b x y : ℕ} (ha : a ≤ 10 ^ x) (hb : b ≤ 10 ^ y) : a * b ≤ 10 ^ (x + y) := by
  rw [pow_add]
  exact Nat.mul_le_mul ha hb

theorem succ_le_pow {a x : ℕ} (ha : a ≤ 10 ^ x) : a + 1 ≤ 10 ^ (x + 1) := by
  have hpos : 0 < 10 ^ x := by positivity
  rw [pow_succ]
  omega

/-- The shortest decimal of a double that is not zero is not zero. -/
theorem shortest_spec (hm : 0 < m) (hmantissa : m < 2 ^ 53) (hlow : -1074 ≤ e) (hhigh : e ≤ 971) :
    0 < (shortest m e).1 ∧ (shortest m e).1 ≤ 10 ^ 2000 ∧ -1000 ≤ (shortest m e).2 ∧
      (shortest m e).2 ≤ 1000 := by
  have hlog : m.log2 < 53 := (Nat.log2_lt hm.ne').mpr hmantissa
  unfold shortest
  dsimp only
  generalize hs : ((m.log2 : ℤ) + 1 + e) * 30103 / 100000 + 1 = s
  -- The last grid has more than four steps to a unit in the last place.
  have hfound : (onGrid (neighbourhood m e) e (s - (23 : ℕ))).isSome = true := by
    obtain ⟨-, hlow', hhigh'⟩ := neighbourhood_spec (e := e) hm
    refine Neighbourhood.nearestMultiple?_isSome hlow' hhigh' (by positivity) ?_
    have hscale := unit_le_scale (k := e - 2) (s := s - (23 : ℕ)) (by omega) (by omega)
    rwa [neg_sub] at hscale
  obtain ⟨i, hi, hgrid, hexponent⟩ := searchGrid_spec (by decide : 23 < 24) hfound
  generalize searchGrid (neighbourhood m e) e 24 s = found at hgrid hexponent ⊢
  obtain ⟨d, x⟩ := found
  obtain rfl : x = s - i := hexponent
  obtain ⟨hpos, hle⟩ := onGrid_bounds hm hgrid
  obtain ⟨k, hk, hstripped, hvalue⟩ := stripZeros_spec 24 d (s - i)
  dsimp only
  generalize stripZeros 24 d (s - i) = stripped at hstripped hvalue ⊢
  have hpos' : 0 < stripped.1 := by
    refine Nat.pos_of_ne_zero fun hzero => ?_
    rw [hzero, zero_mul] at hvalue
    omega
  refine ⟨hpos', ?_, by omega, by omega⟩
  have hmantissa' : 4 * m ≤ 10 ^ 60 := (by omega : 4 * m ≤ 2 ^ 55).trans (by decide)
  have htwo : 2 ^ (e - 2).toNat ≤ 10 ^ 1000 :=
    calc 2 ^ (e - 2).toNat ≤ 10 ^ (e - 2).toNat := Nat.pow_le_pow_left (by decide) _
      _ ≤ 10 ^ 1000 := pow_le_pow_right₀ (by decide) (by omega)
  have hten : 10 ^ (-(s - i)).toNat ≤ 10 ^ 500 := pow_le_pow_right₀ (by decide) (by omega)
  calc stripped.1 ≤ stripped.1 * 10 ^ k := Nat.le_mul_of_pos_right _ (by positivity)
    _ = d := hvalue.symm
    _ ≤ 4 * m * (2 ^ (e - 2).toNat * 10 ^ (-(s - i)).toNat) + 1 := hle
    _ ≤ 10 ^ (60 + (1000 + 500) + 1) :=
      succ_le_pow (mul_le_pow hmantissa' (mul_le_pow htwo hten))
    _ ≤ 10 ^ 2000 := pow_le_pow_right₀ (by decide) (by decide)

end Search

end Binary64

end TowerLisp
