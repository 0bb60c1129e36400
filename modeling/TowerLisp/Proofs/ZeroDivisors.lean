import TowerLisp.Proofs.DecimalComparison
import TowerLisp.Proofs.DoubleTexts
import TowerLisp.Proofs.WellFormedNumbers

/-!
Division by zero. A divisor that is zero is reported, and one that is not gives a result unless
the decimals are too large. What escapes this are fractions so small that the kind of the
operation has only zero for them: division then reports a zero divisor, and the remainder is a
breakdown.
-/

namespace TowerLisp

open Decimal (exists_ofBinary64)

section Overflows

variable {α β : Type} {m : Except Fault α} {f : α → Except Fault β}

/-- The only fault that a computation ends in is that of a decimal that is too large. -/
def OnlyOverflows (m : Except Fault α) : Prop :=
  ∀ fault, m = .error fault → fault = .breakdown .decimalOverflow

theorem onlyOverflows_ok (a : α) : OnlyOverflows (.ok a) :=
  nofun

theorem onlyOverflows_overflow :
    OnlyOverflows (.error (.breakdown .decimalOverflow) : Except Fault α) := by
  rintro _ ⟨⟩
  rfl

theorem OnlyOverflows.bind (hm : OnlyOverflows m) (hf : ∀ a, m = .ok a → OnlyOverflows (f a)) :
    OnlyOverflows (m >>= f) := by
  intro fault h
  cases m with
  | ok a => exact hf a rfl fault h
  | error cause =>
    cases h
    exact hm fault rfl

end Overflows

namespace Decimal

variable {p : Precision} {x y z : Decimal} {u v : ℚ}

theorem onlyOverflows_round (s : Bool) (c : ℕ) (e : ℤ) : OnlyOverflows (p.round s c e) :=
  fun _ h => Precision.eq_overflow_of_round h

theorem onlyOverflows_div (hx : x.toRat? = some u) (hy : y.toRat? = some v) (hv : v ≠ 0) :
    OnlyOverflows (div p x y) := by
  obtain ⟨s, c, e, rfl, rfl⟩ := exists_finite hx
  obtain ⟨t, d, f, rfl, rfl⟩ := exists_finite hy
  rw [div, if_neg fun hzero => hv (denoted_eq_zero_iff.mpr hzero)]
  split
  · exact onlyOverflows_round _ _ _
  · exact onlyOverflows_round _ _ _

theorem exists_div (hx : x.toRat? = some u) (hy : y.toRat? = some v) (hv : v ≠ 0)
    (h : div .wide x y = .ok z) : ∃ w, z.toRat? = some w := by
  obtain ⟨s, q, g, w, hround, -⟩ := div_eq_round hx hy hv h
  exact ⟨_, Precision.round_toRat (by decide) hround⟩

theorem onlyOverflows_mul (hx : x.toRat? = some u) (hy : y.toRat? = some v) :
    OnlyOverflows (mul p x y) := by
  obtain ⟨s, c, e, rfl, rfl⟩ := exists_finite hx
  obtain ⟨t, d, f, rfl, rfl⟩ := exists_finite hy
  exact onlyOverflows_round _ _ _

theorem exists_mul (hx : x.toRat? = some u) (hy : y.toRat? = some v)
    (h : mul .wide x y = .ok z) : ∃ w, z.toRat? = some w := by
  obtain ⟨s, c, e, rfl, rfl⟩ := exists_finite hx
  obtain ⟨t, d, f, rfl, rfl⟩ := exists_finite hy
  exact ⟨_, Precision.round_toRat (by decide) h⟩

theorem onlyOverflows_sub (hx : x.toRat? = some u) (hy : y.toRat? = some v) :
    OnlyOverflows (sub p x y) := by
  obtain ⟨s, c, e, rfl, rfl⟩ := exists_finite hx
  obtain ⟨t, d, f, rfl, rfl⟩ := exists_finite hy
  unfold sub flip add
  dsimp only
  split <;> split <;> exact onlyOverflows_round _ _ _

end Decimal

namespace Scalar

variable {a b s : Scalar} {x y : Decimal} {u v : ℚ} {kind : Kind}

/-- The remainder of finite decimals has no fault but an overflow. -/
theorem onlyOverflows_floorModDecimal (hx : x.toRat? = some u) (hy : y.toRat? = some v)
    (hv : v ≠ 0) : OnlyOverflows (floorModDecimal x y) := by
  refine (Decimal.onlyOverflows_div hx hy hv).bind fun quotient hquotient => ?_
  obtain ⟨w, hw⟩ := Decimal.exists_div hx hy hv hquotient
  have hfloor := Decimal.floor_toRat hw
  refine (Decimal.onlyOverflows_mul hy hfloor).bind fun taken htaken => ?_
  obtain ⟨w, hw⟩ := Decimal.exists_mul hy hfloor htaken
  exact Decimal.onlyOverflows_sub hx hw

/-- Scalars that are numbers. The doubles are those that a word has room for. -/
def IsFinite : Scalar → Prop
  | float x => x.isFinite = true ∧ x.InRange
  | bigfloat d => d.isFinite = true
  | _ => True

instance : DecidablePred IsFinite
  | float x => inferInstanceAs (Decidable (x.isFinite = true ∧ x.InRange))
  | bigfloat d => inferInstanceAs (Decidable (d.isFinite = true))
  | int _ => inferInstanceAs (Decidable True)
  | bigint _ => inferInstanceAs (Decidable True)
  | rational _ => inferInstanceAs (Decidable True)

/-- The smallest positive number of a kind that rounds. -/
def least : Kind → ℚ
  | .float => 2 ^ Binary64.leastExponent
  | .bigfloat => 10 ^ Precision.wide.tiny
  | _ => 0

/-- A fraction that is not zero, but so small that it is zero at the kind of an operation. -/
def Vanishes (s : Scalar) (kind : Kind) : Prop :=
  ∃ q, s = rational q ∧ q ≠ 0 ∧ 2 * |q| ≤ least kind

theorem least_nonneg (kind : Kind) : 0 ≤ least kind := by
  cases kind
  case float => exact (zpow_pos (by norm_num) _).le
  case bigfloat => exact (zpow_pos (by norm_num) _).le
  all_goals exact le_rfl

theorem not_vanishes (h : ∀ q, s ≠ rational q) : ¬ s.Vanishes kind := by
  rintro ⟨q, hq, -⟩
  exact h q hq

theorem isZero_rational {q : ℚ} : (rational q).isZero = true ↔ q = 0 := by
  rw [isZero, beq_iff_eq, Rat.num_eq_zero]

theorem isZero_or_vanishes_iff (q : ℚ) (kind : Kind) :
    (rational q).isZero = true ∨ (rational q).Vanishes kind ↔ 2 * |q| ≤ least kind := by
  rw [isZero_rational]
  constructor
  · rintro (rfl | ⟨p, hp, -, hle⟩)
    · rw [abs_zero, mul_zero]
      exact least_nonneg kind
    · cases hp
      exact hle
  · intro hle
    by_cases hq : q = 0
    · exact Or.inl hq
    · exact Or.inr ⟨q, rfl, hq, hle⟩

/-- The decimal of a scalar is finite, and it is zero if the scalar is, or if it vanishes. -/
theorem exists_toDecimal (hs : s.IsFinite) {d : Decimal} (h : s.toDecimal = .ok d) :
    ∃ v, d.toRat? = some v ∧ (v = 0 ↔ s.isZero = true ∨ s.Vanishes .bigfloat) := by
  cases s with
  | int n =>
    cases h
    exact ⟨n, Decimal.ofInt_toRat n, by simp [isZero, not_vanishes]⟩
  | bigint n =>
    cases h
    exact ⟨n, Decimal.ofInt_toRat n, by simp [isZero, not_vanishes]⟩
  | rational q =>
    have hden : ((q.den : ℤ) : ℚ) ≠ 0 := by simp
    have hzero := Decimal.div_eq_zero_iff (by decide) (Decimal.ofInt_toRat q.num)
      (Decimal.ofInt_toRat q.den) hden h
    obtain ⟨v, hv⟩ := Decimal.exists_div (Decimal.ofInt_toRat q.num) (Decimal.ofInt_toRat q.den)
      hden h
    rw [hv, Option.some.injEq, Int.cast_natCast, Rat.num_div_den] at hzero
    exact ⟨v, hv, hzero.trans (isZero_or_vanishes_iff q .bigfloat).symm⟩
  | float x =>
    cases h
    obtain ⟨v, hv, hzero⟩ := exists_ofBinary64 hs.1 hs.2
    exact ⟨v, hv, by simp [hzero, isZero, not_vanishes]⟩
  | bigfloat d =>
    cases h
    cases d with
    | finite s c e =>
      exact ⟨_, Decimal.toRat?_finite s c e,
        by simp [Decimal.denoted_eq_zero_iff, isZero, Decimal.isZero, not_vanishes]⟩
    | infinite s => cases hs
    | nan m => cases hs

/-- The double of a scalar that has one is finite, and it is zero if the scalar is, or if it
vanishes. -/
theorem exists_finite_toBinary64 (hs : s.IsFinite) (hkind : s.kind ≠ .bigfloat)
    (hfits : s.fitsDouble = true) :
    ∃ x, s.toBinary64 = .ok x ∧ x.isFinite = true ∧ x.InRange ∧
      (x.isZero = true ↔ s.isZero = true ∨ s.Vanishes .float) := by
  obtain ⟨x, hx⟩ := exists_toBinary64 hfits
  have hexact : ∀ {y : Binary64}, exactDouble y = .ok x → y.isFinite = true ∧ y = x := by
    intro y h
    unfold exactDouble at h
    split at h
    · rename_i hfinite
      cases h
      exact ⟨hfinite, rfl⟩
    · cases h
  refine ⟨x, hx, ?_⟩
  cases s with
  | int n =>
    obtain ⟨hfinite, rfl⟩ := hexact hx
    exact ⟨hfinite, Binary64.ofRatio_inRange _ _ Nat.one_pos,
      by simp [isZero, not_vanishes, Binary64.isZero_ofInt]⟩
  | bigint n =>
    obtain ⟨hfinite, rfl⟩ := hexact hx
    exact ⟨hfinite, Binary64.ofRatio_inRange _ _ Nat.one_pos,
      by simp [isZero, not_vanishes, Binary64.isZero_ofInt]⟩
  | rational q =>
    obtain ⟨hfinite, rfl⟩ := hexact hx
    exact ⟨hfinite, Binary64.ofRatio_inRange _ _ q.den_pos,
      Binary64.isZero_ofRat.trans (isZero_or_vanishes_iff q .float).symm⟩
  | float y =>
    cases hx
    exact ⟨hs.1, hs.2, by simp [isZero, not_vanishes]⟩
  | bigfloat d => exact absurd rfl hkind

/-- The exact value of an exact scalar is zero if the scalar is. -/
theorem toRat_eq_zero_iff {q : ℚ} (hs : s.kind.IsExact) (h : s.toRat = .ok q) :
    q.num = 0 ↔ s.isZero = true := by
  cases s with
  | int n =>
    cases h
    simp [isZero, Rat.mkRat_one]
  | bigint n =>
    cases h
    simp [isZero, Rat.mkRat_one]
  | rational p =>
    cases h
    rw [isZero, beq_iff_eq]
  | float x => exact absurd hs (by decide : ¬ Kind.float.IsExact)
  | bigfloat d => exact absurd hs (by decide : ¬ Kind.bigfloat.IsExact)

theorem not_vanishes_exact (hkind : kind.IsExact) : ¬ s.Vanishes kind := by
  rintro ⟨q, rfl, hq, hle⟩
  have hnone : least kind = 0 := by
    cases kind <;> first | rfl | exact absurd hkind (by decide)
  have := abs_pos.mpr hq
  rw [hnone] at hle
  linarith

/-- What the operands become at their join. -/
inductive Promoted (a b : Scalar) : Prop
  | exact {x y : ℚ} (hjoin : (a.join b).IsExact) (hx : a.toRat = .ok x) (hy : b.toRat = .ok y)
      (hzero : y.num = 0 ↔ b.isZero = true)
  | float {x y : Binary64} (hjoin : a.join b = .float) (hx : a.toBinary64 = .ok x)
      (hy : b.toBinary64 = .ok y) (hfinite : x.isFinite = true ∧ x.InRange)
      (hfinite' : y.isFinite = true ∧ y.InRange)
      (hzero : y.isZero = true ↔ b.isZero = true ∨ b.Vanishes .float)
  | bigfloat (hjoin : a.join b = .bigfloat)

theorem promoted (ha : a.IsFinite) (hb : b.IsFinite) : Promoted a b := by
  obtain ⟨hrankA, hrankB, hfits⟩ := join_above a b
  have hrank := rank_join_le a b
  by_cases hbig : a.join b = .bigfloat
  · exact .bigfloat hbig
  by_cases hfloat : a.join b = .float
  · obtain ⟨hfitsA, hfitsB⟩ := hfits hfloat
    have hkind : ∀ {s : Scalar}, s.kind.rank ≤ (a.join b).rank → s.kind ≠ .bigfloat := by
      intro s hs heq
      rw [hfloat, heq] at hs
      exact absurd hs (by decide)
    obtain ⟨x, hx, hxf, hxr, -⟩ := exists_finite_toBinary64 ha (hkind hrankA) hfitsA
    obtain ⟨y, hy, hyf, hyr, hzero⟩ := exists_finite_toBinary64 hb (hkind hrankB) hfitsB
    exact .float hfloat hx hy ⟨hxf, hxr⟩ ⟨hyf, hyr⟩ hzero
  · have hexact := Kind.isExact_of_ne hrank hfloat hbig
    have hexactB : b.kind.IsExact := Nat.le_trans hrankB hexact
    obtain ⟨x, hx⟩ := exists_toRat (Nat.le_trans hrankA hexact)
    obtain ⟨y, hy⟩ := exists_toRat hexactB
    exact .exact hexact hx hy (toRat_eq_zero_iff hexactB hy)

/-- A finite decimal is zero if its value is. -/
theorem isZero_decimal {d : Decimal} (h : d.toRat? = some v) : d.isZero = true ↔ v = 0 := by
  obtain ⟨s, c, e, rfl, rfl⟩ := Decimal.exists_finite h
  rw [Decimal.isZero, beq_iff_eq, Decimal.denoted_eq_zero_iff]

theorem onlyOverflows_toDecimal (s : Scalar) : OnlyOverflows s.toDecimal :=
  fun _ h => eq_overflow_of_toDecimal h

theorem div_eq_exact (hjoin : (a.join b).IsExact) {x y : ℚ} (hx : a.toRat = .ok x)
    (hy : b.toRat = .ok y) :
    a.div b = if y.num = 0 then divisionByZero else .ok (ofRat (Rat.div x y)) := by
  unfold div
  split
  · rename_i hfloat
    rw [hfloat] at hjoin
    exact absurd hjoin (by decide)
  · rename_i hbig
    rw [hbig] at hjoin
    exact absurd hjoin (by decide)
  · rw [hx, hy]
    rfl

theorem div_eq_float (hjoin : a.join b = .float) {x y : Binary64} (hx : a.toBinary64 = .ok x)
    (hy : b.toBinary64 = .ok y) :
    a.div b = if y.isZero = true then divisionByZero
      else ScalarOperation.applyDouble Binary64.div (Decimal.div .wide) x y := by
  rw [div, hjoin, hx, hy]
  rfl

theorem div_eq_bigfloat (hjoin : a.join b = .bigfloat) :
    a.div b = a.toDecimal >>= fun x => b.toDecimal >>= fun y =>
      if y.isZero = true then divisionByZero
      else Decimal.div .wide x y >>= fun z => .ok (bigfloat z) := by
  rw [div, hjoin]
  rfl

/-- Finite doubles are divided, or the decimals of their texts are. -/
theorem onlyOverflows_applyDouble {x y : Binary64} (hx : x.isFinite = true ∧ x.InRange)
    (hy : y.isFinite = true ∧ y.InRange) (hzero : y.isZero ≠ true) :
    OnlyOverflows (ScalarOperation.applyDouble Binary64.div (Decimal.div .wide) x y) := by
  obtain ⟨u, hu, -⟩ := exists_ofBinary64 hx.1 hx.2
  obtain ⟨v, hv, hv0⟩ := exists_ofBinary64 hy.1 hy.2
  unfold ScalarOperation.applyDouble
  dsimp only
  split
  · exact onlyOverflows_ok _
  · exact (Decimal.onlyOverflows_div hu hv (mt hv0.mp hzero)).bind fun _ _ => onlyOverflows_ok _

/-- A quotient by a number that is zero at the join is refused, and any other quotient is a
result or an overflow. -/
theorem div_cases (ha : a.IsFinite) (hb : b.IsFinite) :
    (b.isZero = true ∨ b.Vanishes (a.join b) →
      a.div b = divisionByZero ∨
        a.div b = .error (.breakdown .decimalOverflow) ∧ a.join b = .bigfloat ∧
          (a.toDecimal = .error (.breakdown .decimalOverflow) ∨
            b.toDecimal = .error (.breakdown .decimalOverflow))) ∧
      (¬ (b.isZero = true ∨ b.Vanishes (a.join b)) → OnlyOverflows (a.div b)) := by
  cases promoted ha hb with
  | exact hjoin hx hy hzero =>
    rw [div_eq_exact hjoin hx hy, or_iff_left (not_vanishes_exact hjoin), ← hzero]
    refine ⟨fun h => Or.inl (if_pos h), fun h => ?_⟩
    rw [if_neg h]
    exact onlyOverflows_ok _
  | float hjoin hx hy hfinite hfinite' hzero =>
    rw [div_eq_float hjoin hx hy, hjoin, ← hzero]
    refine ⟨fun h => Or.inl (if_pos h), fun h => ?_⟩
    rw [if_neg h]
    exact onlyOverflows_applyDouble hfinite hfinite' h
  | bigfloat hjoin =>
    rw [div_eq_bigfloat hjoin, hjoin]
    cases hx : a.toDecimal with
    | error fault =>
      obtain rfl := onlyOverflows_toDecimal a fault hx
      exact ⟨fun _ => Or.inr ⟨rfl, rfl, Or.inl rfl⟩, fun _ => onlyOverflows_overflow⟩
    | ok x =>
      obtain ⟨u, hu, -⟩ := exists_toDecimal ha hx
      rw [ok_bind]
      cases hy : b.toDecimal with
      | error fault =>
        obtain rfl := onlyOverflows_toDecimal b fault hy
        exact ⟨fun _ => Or.inr ⟨rfl, rfl, Or.inr rfl⟩, fun _ => onlyOverflows_overflow⟩
      | ok y =>
        obtain ⟨v, hv, hzero⟩ := exists_toDecimal hb hy
        rw [ok_bind, ← hzero, ← isZero_decimal hv]
        refine ⟨fun h => Or.inl (if_pos h), fun h => ?_⟩
        rw [if_neg h]
        exact (Decimal.onlyOverflows_div hu hv (mt (isZero_decimal hv).mpr h)).bind
          fun _ _ => onlyOverflows_ok _

theorem floorMod_eq_exact (hjoin : (a.join b).IsExact) {x y : ℚ} (hx : a.toRat = .ok x)
    (hy : b.toRat = .ok y) : a.floorMod b = .ok (ofRat (floorModRat x y)) := by
  unfold floorMod
  split
  · rename_i hfloat
    rw [hfloat] at hjoin
    exact absurd hjoin (by decide)
  · rename_i hbig
    rw [hbig] at hjoin
    exact absurd hjoin (by decide)
  · rw [hx, hy]
    rfl

theorem floorMod_eq_float (hjoin : a.join b = .float) {x y : Binary64} (hx : a.toBinary64 = .ok x)
    (hy : b.toBinary64 = .ok y) :
    a.floorMod b = floorModDouble x y >>= fun z => .ok (float z) := by
  rw [floorMod, hjoin, hx, hy]
  rfl

theorem floorMod_eq_bigfloat (hjoin : a.join b = .bigfloat) :
    a.floorMod b = a.toDecimal >>= fun x => b.toDecimal >>= fun y =>
      floorModDecimal x y >>= fun z => .ok (bigfloat z) := by
  rw [floorMod, hjoin]
  rfl

/-- A remainder by a decimal that is zero is a breakdown. -/
theorem floorModDecimal_of_isZero (hx : x.toRat? = some u) (hy : y.toRat? = some v)
    (hzero : y.isZero = true) : ∃ cause, floorModDecimal x y = .error (.breakdown cause) := by
  obtain ⟨s, c, e, rfl, rfl⟩ := Decimal.exists_finite hx
  obtain ⟨t, d, f, rfl, rfl⟩ := Decimal.exists_finite hy
  have hd : d = 0 := beq_iff_eq.mp hzero
  rw [floorModDecimal, Decimal.div, if_pos hd]
  split
  · exact ⟨_, rfl⟩
  · exact ⟨_, rfl⟩

/-- The remainder by a number that vanishes at the join is a breakdown, and any other remainder
by a number that is not zero is a result or an overflow. -/
theorem floorMod_cases (ha : a.IsFinite) (hb : b.IsFinite) :
    (b.Vanishes (a.join b) → ∃ cause, a.floorMod b = .error (.breakdown cause)) ∧
      (¬ (b.isZero = true ∨ b.Vanishes (a.join b)) → OnlyOverflows (a.floorMod b)) := by
  cases promoted ha hb with
  | exact hjoin hx hy hzero =>
    rw [floorMod_eq_exact hjoin hx hy]
    exact ⟨fun h => absurd h (not_vanishes_exact hjoin), fun _ => onlyOverflows_ok _⟩
  | float hjoin hx hy hfinite hfinite' hzero =>
    rw [floorMod_eq_float hjoin hx hy, hjoin, floorModDouble]
    refine ⟨fun h => ?_, fun h => ?_⟩
    · rw [if_pos (hzero.mpr (Or.inr h))]
      exact ⟨_, rfl⟩
    · rw [if_neg (mt hzero.mp h)]
      exact onlyOverflows_ok _
  | bigfloat hjoin =>
    rw [floorMod_eq_bigfloat hjoin, hjoin]
    cases hx : a.toDecimal with
    | error fault =>
      obtain rfl := onlyOverflows_toDecimal a fault hx
      exact ⟨fun _ => ⟨_, rfl⟩, fun _ => onlyOverflows_overflow⟩
    | ok x =>
      obtain ⟨u, hu, -⟩ := exists_toDecimal ha hx
      rw [ok_bind]
      cases hy : b.toDecimal with
      | error fault =>
        obtain rfl := onlyOverflows_toDecimal b fault hy
        exact ⟨fun _ => ⟨_, rfl⟩, fun _ => onlyOverflows_overflow⟩
      | ok y =>
        obtain ⟨v, hv, hzero⟩ := exists_toDecimal hb hy
        rw [ok_bind]
        refine ⟨fun h => ?_, fun h => ?_⟩
        · obtain ⟨cause, hcause⟩ := floorModDecimal_of_isZero hu hv
            ((isZero_decimal hv).mpr (hzero.mpr (Or.inr h)))
          exact ⟨cause, by rw [hcause]; rfl⟩
        · exact (onlyOverflows_floorModDecimal hu hv (mt hzero.mp h)).bind
            fun _ _ => onlyOverflows_ok _

/-- Zero has a decimal. -/
theorem exists_toDecimal_of_isZero (hzero : s.isZero = true) : ∃ d, s.toDecimal = .ok d := by
  cases s with
  | rational q =>
    obtain rfl := isZero_rational.mp hzero
    exact exists_ok_of_isOk (by decide +kernel)
  | _ => exact ⟨_, rfl⟩

/-- A scalar whose decimal would be too large has no representation as one. -/
theorem promote_of_toDecimal {fault : Fault} (h : s.toDecimal = .error fault) :
    (Number.scalar s).promote .bigfloat = .error fault := by
  cases s with
  | rational q =>
    change (do return Number.scalar (bigfloat (← (rational q).toDecimal))) = _
    rw [h]
    rfl
  | _ => cases h

end Scalar

namespace Number

open Scalar (IsFinite Vanishes)

variable {a b : Scalar}

theorem div_scalar (a b : Scalar) :
    div (scalar a) (scalar b) = a.div b >>= fun c => .ok (scalar c) :=
  rfl

theorem mod_scalar (a b : Scalar) :
    mod (scalar a) (scalar b) =
      if b.isZero = true then .error (.divisionByZero .modulus)
      else a.floorMod b >>= fun c => .ok (scalar c) :=
  rfl

/-- A divisor that is zero is reported, unless a quotient calls for a decimal and the dividend is
too large for one, which is found first. A divisor that is not zero gives a result, or a decimal
that is too large, if it is no fraction that vanishes at the join. By such a fraction there is
neither a quotient nor a remainder: the one reports a zero divisor, the other breaks down. -/
theorem zero_divisors (ha : a.IsFinite) (hb : b.IsFinite) :
    (b.isZero = true →
      mod (scalar a) (scalar b) = .error (.divisionByZero .modulus) ∧
        (div (scalar a) (scalar b) = .error (.divisionByZero .quotient) ∨
          div (scalar a) (scalar b) = .error (.breakdown .decimalOverflow) ∧
            (scalar a).promote (a.join b) = .error (.breakdown .decimalOverflow))) ∧
      (b.isZero = false → ¬ b.Vanishes (a.join b) →
        ∀ op ∈ [div, mod], OnlyOverflows (op (scalar a) (scalar b))) ∧
      (b.Vanishes (a.join b) →
        (div (scalar a) (scalar b) = .error (.divisionByZero .quotient) ∨
          div (scalar a) (scalar b) = .error (.breakdown .decimalOverflow)) ∧
        ∃ cause, mod (scalar a) (scalar b) = .error (.breakdown cause)) := by
  obtain ⟨hdivZero, hdiv⟩ := Scalar.div_cases ha hb
  obtain ⟨hmodZero, hmod⟩ := Scalar.floorMod_cases ha hb
  refine ⟨fun hzero => ⟨?_, ?_⟩, fun hne hseen op hop => ?_, fun hvanishes => ⟨?_, ?_⟩⟩
  · rw [mod_scalar, if_pos hzero]
  · rcases hdivZero (Or.inl hzero) with hdiv | ⟨hdiv, hjoin, hlarge | hlarge⟩
    · left
      rw [div_scalar, hdiv]
      rfl
    · right
      rw [div_scalar, hdiv, hjoin]
      exact ⟨rfl, Scalar.promote_of_toDecimal hlarge⟩
    · obtain ⟨d, hd⟩ := Scalar.exists_toDecimal_of_isZero hzero
      rw [hd] at hlarge
      cases hlarge
  · have hnot : ¬ (b.isZero = true ∨ b.Vanishes (a.join b)) := by
      rw [hne]
      exact fun h => h.elim nofun hseen
    simp only [List.mem_cons, List.not_mem_nil, or_false] at hop
    rcases hop with rfl | rfl
    · rw [div_scalar]
      exact (hdiv hnot).bind fun _ _ => onlyOverflows_ok _
    · rw [mod_scalar, if_neg fun hzero => hnot (Or.inl hzero)]
      exact (hmod hnot).bind fun _ _ => onlyOverflows_ok _
  · rcases hdivZero (Or.inr hvanishes) with hdiv | ⟨hdiv, -⟩
    · left
      rw [div_scalar, hdiv]
      rfl
    · right
      rw [div_scalar, hdiv]
      rfl
  · have hne : b.isZero ≠ true := by
      obtain ⟨q, rfl, hq, -⟩ := hvanishes
      exact mt Scalar.isZero_rational.mp hq
    obtain ⟨cause, hcause⟩ := hmodZero hvanishes
    exact ⟨cause, by rw [mod_scalar, if_neg hne, hcause]; rfl⟩

/-- A negative zero is a zero, and the smallest double is none. -/
theorem zero_divisors_doubles :
    mod (scalar (.int 7)) (scalar (.float (.zero true))) = .error (.divisionByZero .modulus) ∧
      ∀ op ∈ [div, mod],
        OnlyOverflows (op (scalar (.float .one)) (scalar (.float (.finite false 1 (-1074))))) := by
  have hzero : (Scalar.float (.zero true)).IsFinite := by decide
  have hone : (Scalar.float .one).IsFinite := by decide
  have hleast : (Scalar.float (.finite false 1 (-1074))).IsFinite := by decide
  obtain ⟨hreported, -⟩ := zero_divisors (a := .int 7) trivial hzero
  obtain ⟨-, hquiet, -⟩ := zero_divisors hone hleast
  exact ⟨(hreported rfl).1, hquiet rfl (Scalar.not_vanishes nofun)⟩

/-- The nearest double to this divisor is zero. -/
theorem vanishing_divisor_refused :
    (Scalar.float (.zero false)).IsFinite ∧ (Scalar.rational (1 / 10 ^ 400)).IsFinite ∧
      (Scalar.rational (1 / 10 ^ 400)).isZero = false ∧
      div (scalar (.float (.zero false))) (scalar (.rational (1 / 10 ^ 400))) =
        .error (.divisionByZero .quotient) ∧
      mod (scalar (.float (.zero false))) (scalar (.rational (1 / 10 ^ 400))) =
        .error (.breakdown .doubleDivisorVanished) :=
  ⟨by decide, trivial, by decide +kernel, by decide +kernel, by decide +kernel⟩

end Number

end TowerLisp
