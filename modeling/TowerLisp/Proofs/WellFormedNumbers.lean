import TowerLisp.Proofs.IntegerPowers
import TowerLisp.Proofs.NumberLiterals

/-!
Well-formed numbers. What is computed from well-formed numbers is well-formed again, and
so is what is read from a text with no more than one i. Numbers are always represented at
their join without a fault, save that a fraction may be beyond the range of decimals.
-/

namespace TowerLisp

namespace Precision

theorem eq_overflow_of_round {p : Precision} {s : Bool} {c : ℕ} {e : ℤ} {fault : Fault}
    (h : p.round s c e = .error fault) : fault = .breakdown .decimalOverflow := by
  unfold round at h
  dsimp only at h
  split_ifs at h <;> cases h <;> rfl

end Precision

namespace Scalar

variable {s t : Scalar} {fault : Fault}

theorem exists_toRat (hs : s.kind.IsExact) : ∃ q, s.toRat = .ok q := by
  cases s with
  | float x => simp [Kind.IsExact, kind, Kind.rank] at hs
  | bigfloat d => simp [Kind.IsExact, kind, Kind.rank] at hs
  | _ => exact ⟨_, rfl⟩

theorem exists_toBinary64 (hs : s.fitsDouble = true) : ∃ x, s.toBinary64 = .ok x := by
  cases s with
  | float x => exact ⟨x, rfl⟩
  | bigfloat d => exact ⟨_, rfl⟩
  | _ => exact exists_ok_of_isOk hs

/-- The only fault of a decimal is that of a fraction that is too large. -/
theorem eq_overflow_of_toDecimal (h : s.toDecimal = .error fault) :
    fault = .breakdown .decimalOverflow := by
  cases s with
  | rational q =>
    have hden : (q.den : ℤ).natAbs ≠ 0 := by simp
    rw [toDecimal, Decimal.ofInt, Decimal.ofInt, Decimal.div, if_neg hden] at h
    split at h
    · exact Precision.eq_overflow_of_round h
    · exact Precision.eq_overflow_of_round h
  | _ => cases h

/-- A join is not below its operands, and it is not that of doubles if one of them does not fit. -/
theorem join_above (s t : Scalar) :
    s.kind.rank ≤ (s.join t).rank ∧ t.kind.rank ≤ (s.join t).rank ∧
      (s.join t = .float → s.fitsDouble = true ∧ t.fitsDouble = true) := by
  unfold join
  dsimp only
  split
  · exact ⟨s.rank_le, t.rank_le, nofun⟩
  · rename_i hfits
    rw [Kind.rank_join]
    refine ⟨le_max_left _ _, le_max_right _ _, fun hfloat => ?_⟩
    simpa [hfloat] using hfits

end Scalar

namespace Number

variable {a b n : Number} {fault : Fault}

/-- A number is represented at a kind that is not below its own, unless it is a fraction
beyond the range of decimals. -/
theorem eq_overflow_of_promote {kind : Kind} (hrank : n.kind.rank ≤ kind.rank)
    (hfits : ∀ s, n = scalar s → kind = .float → s.fitsDouble = true)
    (h : n.promote kind = .error fault) : fault = .breakdown .decimalOverflow := by
  unfold promote at h
  split at h
  · cases h
  rw [if_neg (Nat.not_lt.mpr hrank)] at h
  cases n with
  | scalar s =>
    cases kind with
    | rational =>
      obtain ⟨q, hq⟩ := Scalar.exists_toRat hrank
      simp only [promoteScalar, hq] at h
      cases h
    | float =>
      obtain ⟨x, hx⟩ := Scalar.exists_toBinary64 (hfits s rfl rfl)
      simp only [promoteScalar, hx] at h
      cases h
    | bigfloat =>
      cases hd : s.toDecimal with
      | ok d =>
        simp only [promoteScalar, hd] at h
        cases h
      | error cause =>
        simp only [promoteScalar, hd] at h
        cases h
        exact Scalar.eq_overflow_of_toDecimal hd
    | _ => cases h
  | _ => cases h

theorem join_above (a b : Number) :
    a.kind.rank ≤ (a.join b).rank ∧ b.kind.rank ≤ (a.join b).rank ∧
      ∀ s, (a = scalar s ∨ b = scalar s) → a.join b = .float → s.fitsDouble = true := by
  by_cases hscalars : ∃ s t, a = scalar s ∧ b = scalar t
  · obtain ⟨s, t, rfl, rfl⟩ := hscalars
    obtain ⟨hs, ht, hfits⟩ := Scalar.join_above s t
    refine ⟨hs, ht, ?_⟩
    rintro _ (heq | heq) hfloat
    · cases heq
      exact (hfits hfloat).1
    · cases heq
      exact (hfits hfloat).2
  · obtain ⟨hjoin, hkind⟩ := join_cases (a := a) (b := b) fun s t ha hb => hscalars ⟨s, t, ha, hb⟩
    refine ⟨?_, ?_, fun s _ hfloat => ?_⟩
    · rw [hjoin, Kind.rank_join]
      exact le_max_left _ _
    · rw [hjoin, Kind.rank_join]
      exact le_max_right _ _
    · rw [hfloat] at hkind
      simp at hkind

section Operations

theorem floorModPart_real (divisor : Scalar) (hn : n.WellFormedReal) :
    Returns WellFormedReal (floorModPart divisor n) := by
  obtain ⟨s, rfl, -⟩ := hn
  exact returns_scalar (Scalar.floorMod_wellFormed s divisor)

theorem mod_wellFormed (ha : a.WellFormed) (b : Number) : Returns WellFormed (mod a b) := by
  unfold mod
  split
  · refine Returns.ite (fun _ => returns_error _ _) fun _ => ?_
    split
    · exact (floorModPart_real _ (wellFormedReal_scalar ha)).mono fun _ hc => hc.wellFormed
    · exact (returns_complex (floorModPart_real _ ha.1) (floorModPart_real _ ha.2)).mono
        fun _ hc => hc.1
    · obtain ⟨hre, hi, hj, hk⟩ := ha
      exact (returns_quaternion (floorModPart_real _ hre) (floorModPart_real _ hi)
        (floorModPart_real _ hj) (floorModPart_real _ hk)).mono fun _ hc => hc.1
  · exact returns_bind fun _ => returns_error _ _

theorem floor_wellFormed (ha : a.WellFormed) : Returns WellFormed a.floor := by
  unfold floor
  split
  · split
    · exact (returns_ok _).mpr (Scalar.wellFormed_ofInt _)
    · exact returns_bind fun _ => returns_error _ _
  · exact returns_bind fun _ => (returns_ok _).mpr (Scalar.wellFormed_ofInt _)
  · exact (returns_ok _).mpr (Scalar.wellFormed_ofInt _)
  · exact (returns_ok _).mpr ha
  · exact returns_bind fun _ => returns_error _ _

theorem oneLike_wellFormed (a : Number) : a.oneLike.WellFormed := by
  have hzero := wellFormedReal_zero
  have hone := wellFormedReal_one
  unfold oneLike
  split
  · trivial
  · trivial
  · exact hone.wellFormed
  · exact ⟨hone, hzero⟩
  · exact ⟨hone, hzero, hzero, hzero⟩

theorem mul_wellFormed (ha : a.WellFormed) (hb : b.WellFormed) : Returns WellFormed (mul a b) :=
  (mul_suits ha hb).mono fun _ hc => hc.1

/-- Result and factor stay well-formed from round to round. -/
theorem powerLoop_wellFormed (bits : Nat) {result factor : Number} {exponent : Nat}
    (hresult : result.WellFormed) (hfactor : factor.WellFormed) :
    Returns WellFormed (powerLoop bits result factor exponent) := by
  induction bits generalizing result factor exponent with
  | zero => exact (returns_ok _).mpr hresult
  | succ bits ih =>
    by_cases hexponent : exponent = 0
    · rw [powerLoop, if_pos hexponent]
      exact (returns_ok _).mpr hresult
    rw [powerLoop_succ bits result factor hexponent]
    refine Returns.bind (P := WellFormed) ?_ fun next hnext =>
      Returns.bind (P := WellFormed) ?_ fun square hsquare => ih hnext hsquare
    · exact Returns.ite (fun _ => mul_wellFormed hresult hfactor) fun _ =>
        (returns_ok _).mpr hresult
    · exact Returns.ite (fun _ => (returns_ok _).mpr hfactor) fun _ =>
        mul_wellFormed hfactor hfactor

theorem powerInt_wellFormed (ha : a.WellFormed) (exponent : Int) :
    Returns WellFormed (a.powerInt exponent) :=
  (powerLoop_wellFormed _ a.oneLike_wellFormed ha).bind fun _ hresult =>
    Returns.ite (fun _ => (div_suits a.oneLike_wellFormed hresult).mono fun _ hc => hc.1) fun _ =>
      (returns_ok _).mpr hresult

theorem powerDouble_wellFormed (x y : Binary64) : Returns WellFormed (powerDouble x y) :=
  Returns.ite (fun _ => (returns_ok _).mpr trivial) fun _ =>
    Returns.ite (fun _ => returns_error _ _) fun _ => returns_error _ _

theorem power_wellFormed (ha : a.WellFormed) (b : Number) : Returns WellFormed (power a b) := by
  unfold power
  split
  · split
    · exact powerInt_wellFormed ha _
    · split
      · exact returns_bind fun x => returns_bind fun y => powerDouble_wellFormed x y
      · exact returns_error _ _
  · exact returns_bind fun _ => returns_error _ _

theorem toInexact_scalar (s : Scalar) : Returns WellFormedReal (scalar s).toInexact := by
  unfold toInexact
  split
  · exact (returns_ok _).mpr ⟨_, rfl, trivial⟩
  · exact returns_bind fun _ => returns_error _ _

theorem toInexactBig_scalar (s : Scalar) : Returns WellFormedReal (scalar s).toInexactBig := by
  have hround : ∀ d, Returns WellFormedReal (ofDecimal d) := fun d =>
    returns_bind fun _ => (returns_ok _).mpr ⟨_, rfl, trivial⟩
  cases s with
  | bigfloat d => exact (returns_ok _).mpr ⟨_, rfl, trivial⟩
  | _ => exact returns_bind hround

/-- What keeps scalars, and goes component by component, keeps well-formed numbers. -/
theorem returns_of_components {op : Number → Except Fault Number}
    (hscalar : ∀ s, Returns WellFormedReal (op (scalar s)))
    (hcomplex : ∀ re im, op (complex re im) = do return complex (← op re) (← op im))
    (hquaternion : ∀ re i j k, op (quaternion re i j k) =
      do return quaternion (← op re) (← op i) (← op j) (← op k))
    (ha : a.WellFormed) : Returns WellFormed (op a) := by
  have hreal : ∀ {n : Number}, n.WellFormedReal → Returns WellFormedReal (op n) := by
    rintro _ ⟨s, rfl, -⟩
    exact hscalar s
  cases a with
  | scalar s => exact (hscalar s).mono fun _ hc => hc.wellFormed
  | complex re im =>
    rw [hcomplex]
    exact (returns_complex (hreal ha.1) (hreal ha.2)).mono fun _ hc => hc.1
  | quaternion re i j k =>
    obtain ⟨hre, hi, hj, hk⟩ := ha
    rw [hquaternion]
    exact (returns_quaternion (hreal hre) (hreal hi) (hreal hj) (hreal hk)).mono fun _ hc => hc.1

theorem toInexact_wellFormed (ha : a.WellFormed) : Returns WellFormed a.toInexact :=
  returns_of_components toInexact_scalar (fun _ _ => rfl) (fun _ _ _ _ => rfl) ha

theorem toInexactBig_wellFormed (ha : a.WellFormed) : Returns WellFormed a.toInexactBig :=
  returns_of_components toInexactBig_scalar (fun _ _ => rfl) (fun _ _ _ _ => rfl) ha

theorem realPart_wellFormed (ha : a.WellFormed) : a.realPart.WellFormed := by
  cases a with
  | scalar s => exact ha
  | complex re im => exact ha.1.wellFormed
  | quaternion re i j k => exact ha.1.wellFormed

theorem imaginaryPart_wellFormed (ha : a.WellFormed) : a.imaginaryPart.WellFormed := by
  cases a with
  | scalar s => exact wellFormedReal_zero.wellFormed
  | complex re im => exact ha.2.wellFormed
  | quaternion re i j k => exact ha.2.1.wellFormed

end Operations

section Kinds

/-- The kind of a sum, a difference, a product or a quotient `c` of two numbers. -/
structure ResultKind (a b c : Number) : Prop where
  quaternion : a.kind.join b.kind = .quaternion → c.kind = .quaternion
  complex : a.kind.join b.kind = .complex → c.kind = .complex
  bigfloat : a.join b = .bigfloat → c.kind = .bigfloat
  float : a.join b = .float → c.kind = .float ∨ c.kind = .bigfloat
  exact : a.kind.IsExact → b.kind.IsExact → c.kind.IsExact

/-- The join is the larger kind, unless doubles give way to decimals. -/
theorem join_eq (a b : Number) :
    a.join b = a.kind.join b.kind ∨ a.kind.join b.kind = .float ∧ a.join b = .bigfloat := by
  cases a <;> cases b
  case scalar.scalar s t =>
    unfold join Scalar.join
    dsimp only
    split
    · rename_i hfloat
      simp only [Bool.and_eq_true, decide_eq_true_eq] at hfloat
      exact Or.inr ⟨hfloat.1, rfl⟩
    · exact Or.inl rfl
  all_goals exact Or.inl rfl

theorem isExact_join (ha : a.kind.IsExact) (hb : b.kind.IsExact) : (a.join b).IsExact := by
  have hkinds : (a.kind.join b.kind).IsExact := by
    rw [Kind.IsExact, Kind.rank_join]
    exact max_le ha hb
  obtain hjoin | ⟨hfloat, -⟩ := join_eq a b
  · rwa [hjoin]
  · rw [hfloat] at hkinds
    exact absurd hkinds (by decide)

theorem Suits.resultKind {c : Number} (h : Suits (a.join b) c) : ResultKind a b c := by
  obtain ⟨-, hyields⟩ := h
  have hlarge : ∀ {kind : Kind}, a.kind.join b.kind = kind → kind ≠ .float →
      a.join b = kind := by
    rintro _ rfl hne
    exact (join_eq a b).resolve_right fun h => hne h.1
  refine ⟨fun hk => ?_, fun hk => ?_, fun hk => ?_, fun hk => ?_, fun ha hb => ?_⟩
  · rw [hlarge hk nofun] at hyields
    exact hyields.eq (by decide)
  · rw [hlarge hk nofun] at hyields
    exact hyields.eq (by decide)
  · rw [hk] at hyields
    exact hyields.eq (by decide)
  · rw [hk] at hyields
    exact hyields.eq_or
  · exact hyields.isExact (isExact_join ha hb)

end Kinds

/-- Numbers that are read and computed are well-formed, of the kind that their operands call
for, and an operand is represented at the join unless it is beyond the range of decimals. -/
theorem numbers_well_formed :
    (∀ cs : List Char, cs.count 'i' ≤ 1 → Returns WellFormed (parse cs)) ∧
      ∀ a b : Number, a.WellFormed → b.WellFormed →
        (∀ op ∈ [add, sub, mul, div, mod, power], Returns WellFormed (op a b)) ∧
        (∀ op ∈ [neg, toInexact, toInexactBig, floor], Returns WellFormed (op a)) ∧
        a.realPart.WellFormed ∧ a.imaginaryPart.WellFormed ∧
        (∀ op ∈ [add, sub, mul, div], Returns (ResultKind a b) (op a b)) ∧
        ∀ n ∈ [a, b], ∀ fault, n.promote (a.join b) = .error fault →
          fault = .breakdown .decimalOverflow := by
  refine ⟨fun cs hcs => parse_wellFormed hcs, fun a b ha hb => ?_⟩
  have hsuits : ∀ op ∈ [add, sub, mul, div], Returns (Suits (a.join b)) (op a b) := by
    simp only [List.forall_mem_cons, List.not_mem_nil, false_implies, implies_true, and_true]
    exact ⟨add_suits ha hb, sub_suits ha hb, mul_suits ha hb, div_suits ha hb⟩
  obtain ⟨hrankA, hrankB, hfits⟩ := join_above a b
  refine ⟨?_, ?_, realPart_wellFormed ha, imaginaryPart_wellFormed ha, ?_, ?_⟩
  · have hsums := fun op hop => (hsuits op hop).mono fun _ hc => hc.1
    simp only [List.forall_mem_cons, List.not_mem_nil, false_implies, implies_true,
      and_true] at hsums ⊢
    obtain ⟨hadd, hsub, hmul, hdiv⟩ := hsums
    exact ⟨hadd, hsub, hmul, hdiv, mod_wellFormed ha b, power_wellFormed ha b⟩
  · simp only [List.forall_mem_cons, List.not_mem_nil, false_implies, implies_true, and_true]
    exact ⟨neg_returns ha, toInexact_wellFormed ha, toInexactBig_wellFormed ha,
      floor_wellFormed ha⟩
  · exact fun op hop => (hsuits op hop).mono fun _ hc => hc.resultKind
  · simp only [List.forall_mem_cons, List.not_mem_nil, false_implies, implies_true, and_true]
    exact ⟨fun fault => eq_overflow_of_promote hrankA fun s hs => hfits s (Or.inl hs),
      fun fault => eq_overflow_of_promote hrankB fun s hs => hfits s (Or.inr hs)⟩

theorem numbers_well_formed_past_doubles :
    ∃ read sum, parse "1-i".toList = .ok read ∧ read.WellFormed ∧
      add (scalar (.bigint (2 ^ 1024))) (scalar (.float .one)) = .ok sum ∧ sum.WellFormed ∧
      sum.kind = .bigfloat := by
  obtain ⟨hread, hcomputed⟩ := numbers_well_formed
  have hlarge : (scalar (.bigint (2 ^ 1024))).WellFormed := by
    change ¬ ((-2 : ℤ) ^ 63 ≤ 2 ^ 1024 ∧ (2 : ℤ) ^ 1024 ≤ 2 ^ 63 - 1)
    decide +kernel
  obtain ⟨hvalues, -, -, -, hkinds, -⟩ :=
    hcomputed (scalar (.bigint (2 ^ 1024))) (scalar (.float .one)) hlarge trivial
  have hone : parse "1-i".toList = .ok (complex one (scalar (.int (-1)))) := by
    decide +kernel
  have hsum : add (scalar (.bigint (2 ^ 1024))) (scalar (.float .one)) =
      .ok (scalar (.bigfloat (.finite false 1797693134862315907729305190789025 275))) := by
    decide +kernel
  have hjoin : (scalar (.bigint (2 ^ 1024))).join (scalar (.float .one)) = .bigfloat := by
    decide +kernel
  exact ⟨_, _, hone, hread _ (by decide) _ hone, hsum, hvalues add (by simp) _ hsum,
    (hkinds add (by simp) _ hsum).bigfloat hjoin⟩

end Number

end TowerLisp
