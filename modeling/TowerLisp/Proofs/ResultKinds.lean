import TowerLisp.Number.Modulo
import TowerLisp.Proofs.ExactScalars
import TowerLisp.Proofs.Outcomes

/-!
Shapes of numbers and the kinds of results. In a well-formed number each integer is in the
representation for its size, fractions are no integers, and the components are scalars. Sums,
differences, products and quotients that return a number return a well-formed one, of a kind
that the join of the operands allows.
-/

namespace TowerLisp

section Returns

variable {α β : Type}

/-- If a computation ends well, its result has the property. -/
def Returns (P : α → Prop) (m : Except Fault α) : Prop :=
  ∀ a, m = .ok a → P a

@[simp] theorem returns_ok {P : α → Prop} (a : α) : Returns P (.ok a) ↔ P a := by
  constructor
  · intro h
    exact h a rfl
  · rintro h _ ⟨⟩
    exact h

@[simp] theorem returns_error (P : α → Prop) (fault : Fault) : Returns P (.error fault) :=
  nofun

variable {P : α → Prop} {Q : β → Prop} {m : Except Fault α} {f : α → Except Fault β}

theorem Returns.bind (hm : Returns P m) (hf : ∀ a, P a → Returns Q (f a)) :
    Returns Q (m >>= f) := by
  intro b hb
  obtain ⟨a, ha, hb⟩ := bind_eq_ok hb
  exact hf a (hm a ha) b hb

/-- Where nothing is known of the first result, nothing has to be known. -/
theorem returns_bind (hf : ∀ a, Returns Q (f a)) : Returns Q (m >>= f) :=
  Returns.bind (P := fun _ => True) (fun _ _ => trivial) fun a _ => hf a

theorem Returns.mono {P' : α → Prop} (hm : Returns P m) (h : ∀ a, P a → P' a) : Returns P' m :=
  fun a ha => h a (hm a ha)

theorem Returns.ite {p : Prop} [Decidable p] {n : Except Fault α} (hm : p → Returns P m)
    (hn : ¬ p → Returns P n) : Returns P (if p then m else n) := by
  by_cases hp : p
  · rw [if_pos hp]
    exact hm hp
  · rw [if_neg hp]
    exact hn hp

theorem Returns.foldlM {γ : Type} {step : α → γ → Except Fault α} {items : List γ} {a : α}
    (ha : P a) (hstep : ∀ a, P a → ∀ c ∈ items, Returns P (step a c)) :
    Returns P (items.foldlM step a) := by
  induction items generalizing a with
  | nil => exact (returns_ok a).mpr ha
  | cons c rest ih =>
    rw [List.foldlM_cons]
    refine (hstep a ha c List.mem_cons_self).bind fun b hb => ih hb fun a ha c hc => ?_
    exact hstep a ha c (List.mem_cons_of_mem _ hc)

end Returns

namespace Kind

/-- Kinds of exact scalars. -/
def IsExact (k : Kind) : Prop :=
  k.rank ≤ rational.rank

instance (k : Kind) : Decidable k.IsExact :=
  inferInstanceAs (Decidable (k.rank ≤ rational.rank))

/-- The kinds of the results of an operation that is carried out at a kind: doubles may
overflow to decimals, and exact results take the representation for their size. -/
inductive Yields : Kind → Kind → Prop
  | same (k : Kind) : Yields k k
  | overflow : Yields float bigfloat
  | exact {k result : Kind} (hk : k.IsExact) (hresult : result.IsExact) : Yields k result

namespace Yields

variable {k result : Kind}

theorem eq (h : k.Yields result) (hk : bigfloat.rank ≤ k.rank) : result = k := by
  cases h with
  | same => rfl
  | overflow => exact absurd hk (by decide)
  | exact hexact => exact absurd (Nat.le_trans hk hexact) (by decide)

theorem eq_or (h : float.Yields result) : result = float ∨ result = bigfloat := by
  cases h with
  | same => exact Or.inl rfl
  | overflow => exact Or.inr rfl
  | exact hexact => exact absurd hexact (by decide)

theorem isExact (h : k.Yields result) (hk : k.IsExact) : result.IsExact := by
  cases h with
  | same => exact hk
  | overflow => exact absurd hk (by decide)
  | exact _ hresult => exact hresult

end Yields

theorem join_eq_quaternion_iff {k l : Kind} :
    k.join l = quaternion ↔ k = quaternion ∨ l = quaternion := by
  cases k <;> cases l <;> decide

theorem join_eq_complex_iff {k l : Kind} :
    k.join l = complex ↔
      (k = complex ∨ l = complex) ∧ ¬ (k = quaternion ∨ l = quaternion) := by
  cases k <;> cases l <;> decide

theorem isExact_of_ne {k : Kind} (hk : k.rank ≤ bigfloat.rank) (hfloat : k ≠ float)
    (hbigfloat : k ≠ bigfloat) : k.IsExact := by
  cases k
  case float => exact absurd rfl hfloat
  case bigfloat => exact absurd rfl hbigfloat
  all_goals
    simp only [IsExact, rank] at hk ⊢
    omega

end Kind

namespace Scalar

/-- Integers are told apart by the word that holds them, and fractions are no integers. -/
def WellFormed : Scalar → Prop
  | int n => -2 ^ 63 ≤ n ∧ n ≤ 2 ^ 63 - 1
  | bigint n => ¬ (-2 ^ 63 ≤ n ∧ n ≤ 2 ^ 63 - 1)
  | rational q => 1 < q.den
  | float _ => True
  | bigfloat _ => True

theorem WellFormedExact.wellFormed {s : Scalar} (h : s.WellFormedExact) : s.WellFormed := by
  cases s with
  | float x => exact h.elim
  | bigfloat d => exact h.elim
  | _ => exact h

theorem wellFormed_ofRat (q : ℚ) : (ofRat q).WellFormed :=
  (wellFormedExact_ofRat q).wellFormed

theorem wellFormed_ofInt (n : ℤ) : (ofInt n).WellFormed := by
  rw [← ofRat_intCast]
  exact wellFormed_ofRat n

theorem isExact_ofRat (q : ℚ) : (ofRat q).kind.IsExact := by
  obtain ⟨n, -, -, h⟩ | ⟨n, -, -, h⟩ | ⟨-, h⟩ := ofRat_cases q
  all_goals
    rw [h]
    simp [Kind.IsExact, kind, Kind.rank]

theorem isExact_ofInt (n : ℤ) : (ofInt n).kind.IsExact := by
  rw [← ofRat_intCast]
  exact isExact_ofRat n

theorem rank_le (s : Scalar) : s.kind.rank ≤ Kind.bigfloat.rank := by
  cases s <;> simp [kind, Kind.rank]

theorem rank_join_le (a b : Scalar) : (a.join b).rank ≤ Kind.bigfloat.rank := by
  unfold join
  dsimp only
  split
  · exact le_rfl
  · rw [Kind.rank_join]
    exact max_le a.rank_le b.rank_le

/-- A result that an operation at a kind may have. -/
structure Suits (kind : Kind) (s : Scalar) : Prop where
  wellFormed : s.WellFormed
  yields : kind.Yields s.kind

theorem suits_ofRat {kind : Kind} (h : kind.IsExact) (q : ℚ) : Suits kind (ofRat q) :=
  ⟨wellFormed_ofRat q, .exact h (isExact_ofRat q)⟩

theorem suits_bigfloat (d : Decimal) : Suits .bigfloat (bigfloat d) :=
  ⟨trivial, .same _⟩

theorem isExact_join_of_int? {a b : Scalar} {m n : ℤ} (ha : a.int? = some m)
    (hb : b.int? = some n) : (a.join b).IsExact := by
  cases a <;> cases b <;> simp_all [int?, join, kind, Kind.join, Kind.rank, Kind.IsExact]

theorem applyDouble_suits {double : Binary64 → Binary64 → Binary64}
    {decimal : Decimal → Decimal → Except Fault Decimal} (x y : Binary64) :
    Returns (Suits .float) (ScalarOperation.applyDouble double decimal x y) := by
  unfold ScalarOperation.applyDouble
  refine Returns.ite (fun _ => ?_) fun _ => ?_
  · exact (returns_ok _).mpr ⟨trivial, .same _⟩
  · exact returns_bind fun _ => (returns_ok _).mpr ⟨trivial, .overflow⟩

theorem apply_suits (op : ScalarOperation) (a b : Scalar) :
    Returns (Suits (a.join b)) (op.apply a b) := by
  unfold ScalarOperation.apply
  split
  · rename_i m n ha hb
    exact (returns_ok _).mpr
      ⟨wellFormed_ofInt _, .exact (isExact_join_of_int? ha hb) (isExact_ofInt _)⟩
  · split
    · rename_i hjoin
      rw [hjoin]
      exact returns_bind fun x => returns_bind fun y => applyDouble_suits x y
    · rename_i hjoin
      rw [hjoin]
      exact returns_bind fun _ => returns_bind fun _ => returns_bind fun _ =>
        (returns_ok _).mpr (suits_bigfloat _)
    · rename_i hfloat hbigfloat
      have hexact := Kind.isExact_of_ne (rank_join_le a b) hfloat hbigfloat
      exact returns_bind fun _ => returns_bind fun _ =>
        (returns_ok _).mpr (suits_ofRat hexact _)

theorem div_suits (a b : Scalar) : Returns (Suits (a.join b)) (a.div b) := by
  unfold div
  split
  · rename_i hjoin
    rw [hjoin]
    exact returns_bind fun x => returns_bind fun y =>
      Returns.ite (fun _ => returns_error _ _) fun _ => applyDouble_suits x y
  · rename_i hjoin
    rw [hjoin]
    exact returns_bind fun x => returns_bind fun y =>
      Returns.ite (fun _ => returns_error _ _) fun _ => returns_bind fun _ =>
        (returns_ok _).mpr (suits_bigfloat _)
  · rename_i hfloat hbigfloat
    have hexact := Kind.isExact_of_ne (rank_join_le a b) hfloat hbigfloat
    exact returns_bind fun _ => returns_bind fun _ =>
      Returns.ite (fun _ => returns_error _ _) fun _ =>
        (returns_ok _).mpr (suits_ofRat hexact _)

/-- The sign of a number leaves its representation, save that of the least integer of a word. -/
theorem neg_wellFormed {a : Scalar} (ha : a.WellFormed) : Returns WellFormed a.neg := by
  cases a with
  | int n => exact (returns_ok _).mpr (wellFormed_ofInt _)
  | bigint n => exact (returns_ok _).mpr (wellFormed_ofInt _)
  | rational q => exact (returns_ok _).mpr ha
  | float x => exact (returns_ok _).mpr trivial
  | bigfloat d => exact returns_bind fun _ => (returns_ok _).mpr trivial

theorem floorMod_wellFormed (a b : Scalar) : Returns WellFormed (a.floorMod b) := by
  unfold floorMod
  split
  · exact returns_bind fun _ => returns_bind fun _ => returns_bind fun _ =>
      (returns_ok _).mpr trivial
  · exact returns_bind fun _ => returns_bind fun _ => returns_bind fun _ =>
      (returns_ok _).mpr trivial
  · exact returns_bind fun _ => returns_bind fun _ => (returns_ok _).mpr (wellFormed_ofRat _)

end Scalar

namespace Number

/-- A number that is a well-formed scalar. -/
def WellFormedReal (n : Number) : Prop :=
  ∃ s : Scalar, n = scalar s ∧ s.WellFormed

/-- Well-formed scalars, and numbers with such scalars as their components. -/
def WellFormed : Number → Prop
  | scalar s => s.WellFormed
  | complex re im => re.WellFormedReal ∧ im.WellFormedReal
  | quaternion re i j k =>
    re.WellFormedReal ∧ i.WellFormedReal ∧ j.WellFormedReal ∧ k.WellFormedReal

theorem WellFormedReal.wellFormed {n : Number} (h : n.WellFormedReal) : n.WellFormed := by
  obtain ⟨s, rfl, hs⟩ := h
  exact hs

theorem wellFormedReal_scalar {s : Scalar} (hs : s.WellFormed) : (scalar s).WellFormedReal :=
  ⟨s, rfl, hs⟩

theorem wellFormedReal_zero : zero.WellFormedReal :=
  ⟨_, rfl, by decide, by decide⟩

theorem wellFormedReal_one : one.WellFormedReal :=
  ⟨_, rfl, by decide, by decide⟩

/-- What a computation with scalars returns, taken as a number. -/
theorem returns_scalar {m : Except Fault Scalar} (h : Returns Scalar.WellFormed m) :
    Returns WellFormedReal (do return scalar (← m)) :=
  h.bind fun _ hs => (returns_ok _).mpr ⟨_, rfl, hs⟩

theorem returns_complex {re im : Except Fault Number} (hre : Returns WellFormedReal re)
    (him : Returns WellFormedReal im) :
    Returns (fun c => c.WellFormed ∧ c.kind = .complex) (do return complex (← re) (← im)) :=
  hre.bind fun _ hx => him.bind fun _ hy => (returns_ok _).mpr ⟨⟨hx, hy⟩, rfl⟩

theorem returns_quaternion {re i j k : Except Fault Number} (hre : Returns WellFormedReal re)
    (hi : Returns WellFormedReal i) (hj : Returns WellFormedReal j)
    (hk : Returns WellFormedReal k) :
    Returns (fun c => c.WellFormed ∧ c.kind = .quaternion)
      (do return quaternion (← re) (← i) (← j) (← k)) :=
  hre.bind fun _ hx => hi.bind fun _ hy => hj.bind fun _ hz => hk.bind fun _ hw =>
    (returns_ok _).mpr ⟨⟨hx, hy, hz, hw⟩, rfl⟩

/-- The four components of a number taken as a quaternion are well-formed scalars. -/
theorem WellFormed.asQuaternion {a : Number} (h : a.WellFormed) :
    ∃ re i j k, a.asQuaternion = (re, i, j, k) ∧ re.WellFormedReal ∧ i.WellFormedReal ∧
      j.WellFormedReal ∧ k.WellFormedReal := by
  have hzero := wellFormedReal_zero
  cases a with
  | scalar s => exact ⟨_, _, _, _, rfl, wellFormedReal_scalar h, hzero, hzero, hzero⟩
  | complex re im => exact ⟨_, _, _, _, rfl, h.1, h.2, hzero, hzero⟩
  | quaternion re i j k => exact ⟨_, _, _, _, rfl, h⟩

theorem WellFormed.asComplex {a : Number} (h : a.WellFormed) (hkind : a.kind ≠ .quaternion) :
    ∃ re im, a.asComplex = (re, im) ∧ re.WellFormedReal ∧ im.WellFormedReal := by
  cases a with
  | scalar s => exact ⟨_, _, rfl, wellFormedReal_scalar h, wellFormedReal_zero⟩
  | complex re im => exact ⟨_, _, rfl, h⟩
  | quaternion re i j k => exact absurd rfl hkind

/-- Two numbers that are not both scalars are combined at the larger kind, which is that of
quaternions or that of complex numbers. -/
theorem join_cases {a b : Number} (h : ∀ s t, a = scalar s → b = scalar t → False) :
    a.join b = a.kind.join b.kind ∧
      (needsQuaternion a b = true ∧ a.join b = .quaternion ∨
        needsQuaternion a b = false ∧ a.join b = .complex) := by
  have hjoin : a.join b = a.kind.join b.kind := by
    unfold join
    split
    · exact (h _ _ rfl rfl).elim
    · rfl
  have hneeds : needsQuaternion a b = true ↔ a.kind = .quaternion ∨ b.kind = .quaternion := by
    simp [needsQuaternion]
  have hcomplex : a.kind = .complex ∨ b.kind = .complex ∨ a.kind = .quaternion ∨
      b.kind = .quaternion := by
    cases a with
    | scalar s =>
      cases b with
      | scalar t => exact (h s t rfl rfl).elim
      | complex => exact Or.inr (Or.inl rfl)
      | quaternion => exact Or.inr (Or.inr (Or.inr rfl))
    | complex => exact Or.inl rfl
    | quaternion => exact Or.inr (Or.inr (Or.inl rfl))
  refine ⟨hjoin, ?_⟩
  rw [hjoin, Kind.join_eq_quaternion_iff, Kind.join_eq_complex_iff, ← Bool.not_eq_true, hneeds]
  tauto

theorem kind_ne_of_not_needsQuaternion {a b : Number} (h : needsQuaternion a b = false) :
    a.kind ≠ .quaternion ∧ b.kind ≠ .quaternion := by
  simpa [needsQuaternion] using h

/-- A result at the join of two numbers. -/
def Suits (kind : Kind) (c : Number) : Prop :=
  c.WellFormed ∧ kind.Yields c.kind

theorem suits_of_kind {kind : Kind} {m : Except Fault Number}
    (h : Returns (fun c => c.WellFormed ∧ c.kind = kind) m) : Returns (Suits kind) m :=
  h.mono fun _ ⟨hc, hkind⟩ => ⟨hc, hkind ▸ .same _⟩

section Componentwise

variable {op : Scalar → Scalar → Except Fault Scalar} {a b : Number} (height : Nat)

theorem zipWithin_real (hop : ∀ s t, Returns Scalar.WellFormed (op s t))
    (ha : a.WellFormedReal) (hb : b.WellFormedReal) :
    Returns WellFormedReal (zipWithin op height a b) := by
  obtain ⟨s, rfl, -⟩ := ha
  obtain ⟨t, rfl, -⟩ := hb
  rw [zipWithin]
  exact returns_scalar (hop s t)

/-- Numbers are combined component by component, at their join. -/
theorem zipWithin_suits (hop : ∀ s t, Returns (Scalar.Suits (s.join t)) (op s t))
    (ha : a.WellFormed) (hb : b.WellFormed) :
    Returns (Suits (a.join b)) (zipWithin op height a b) := by
  have hreal : ∀ s t, Returns Scalar.WellFormed (op s t) :=
    fun s t c hc => (hop s t c hc).wellFormed
  unfold zipWithin
  split
  · rename_i s t
    exact (hop s t).bind fun c hc => (returns_ok _).mpr ⟨hc.wellFormed, hc.yields⟩
  · exact returns_error _ _
  · rename_i hnot
    obtain ⟨-, ⟨hshape, hkind⟩ | ⟨hshape, hkind⟩⟩ := join_cases hnot
    · obtain ⟨_, _, _, _, hac, ha₀, ha₁, ha₂, ha₃⟩ := ha.asQuaternion
      obtain ⟨_, _, _, _, hbc, hb₀, hb₁, hb₂, hb₃⟩ := hb.asQuaternion
      rw [if_pos hshape, hac, hbc, hkind]
      exact suits_of_kind (returns_quaternion (zipWithin_real _ hreal ha₀ hb₀)
        (zipWithin_real _ hreal ha₁ hb₁) (zipWithin_real _ hreal ha₂ hb₂)
        (zipWithin_real _ hreal ha₃ hb₃))
    · obtain ⟨_, _, hac, ha₀, ha₁⟩ := ha.asComplex (kind_ne_of_not_needsQuaternion hshape).1
      obtain ⟨_, _, hbc, hb₀, hb₁⟩ := hb.asComplex (kind_ne_of_not_needsQuaternion hshape).2
      rw [hshape, if_neg Bool.false_ne_true, hac, hbc, hkind]
      exact suits_of_kind (returns_complex (zipWithin_real _ hreal ha₀ hb₀)
        (zipWithin_real _ hreal ha₁ hb₁))

end Componentwise

section Sums

variable {a b : Number}

theorem apply_wellFormed (op : ScalarOperation) (s t : Scalar) :
    Returns Scalar.WellFormed (op.apply s t) :=
  (Scalar.apply_suits op s t).mono fun _ h => h.wellFormed

theorem add_real (ha : a.WellFormedReal) (hb : b.WellFormedReal) :
    Returns WellFormedReal (add a b) :=
  zipWithin_real _ (apply_wellFormed _) ha hb

theorem sub_real (ha : a.WellFormedReal) (hb : b.WellFormedReal) :
    Returns WellFormedReal (sub a b) :=
  zipWithin_real _ (apply_wellFormed _) ha hb

theorem add_suits (ha : a.WellFormed) (hb : b.WellFormed) : Returns (Suits (a.join b)) (add a b) :=
  zipWithin_suits _ (Scalar.apply_suits _) ha hb

theorem sub_suits (ha : a.WellFormed) (hb : b.WellFormed) : Returns (Suits (a.join b)) (sub a b) :=
  zipWithin_suits _ (Scalar.apply_suits _) ha hb

theorem total_real {terms : List (Bool × Except Fault Number)}
    (h : ∀ term ∈ terms, Returns WellFormedReal term.2) : Returns WellFormedReal (total terms) := by
  refine Returns.foldlM wellFormedReal_zero fun sum hsum term hterm => ?_
  by_cases hplus : term.1 = true
  · simp only [hplus, if_true]
    exact (h term hterm).bind fun _ hc => add_real hsum hc
  · simp only [hplus]
    exact (h term hterm).bind fun _ hc => sub_real hsum hc

end Sums

section Products

variable {a b : Number}

theorem hamilton_returns {mul : Number → Number → Except Fault Number}
    (hmul : ∀ {x y}, x.WellFormedReal → y.WellFormedReal → Returns WellFormedReal (mul x y))
    (ha : a.WellFormed) (hb : b.WellFormed) :
    Returns (fun c => c.WellFormed ∧ c.kind = .quaternion) (hamilton mul a b) := by
  obtain ⟨_, _, _, _, hac, ha₀, ha₁, ha₂, ha₃⟩ := ha.asQuaternion
  obtain ⟨_, _, _, _, hbc, hb₀, hb₁, hb₂, hb₃⟩ := hb.asQuaternion
  rw [hamilton, hac, hbc]
  apply returns_quaternion
  all_goals
    apply total_real
    simp only [List.forall_mem_cons, List.not_mem_nil, false_implies, implies_true, and_true]
    exact ⟨hmul ‹_› ‹_›, hmul ‹_› ‹_›, hmul ‹_› ‹_›, hmul ‹_› ‹_›⟩

theorem mulWithin_real (height : Nat) (ha : a.WellFormedReal) (hb : b.WellFormedReal) :
    Returns WellFormedReal (mulWithin height a b) := by
  obtain ⟨s, rfl, -⟩ := ha
  obtain ⟨t, rfl, -⟩ := hb
  rw [mulWithin]
  exact returns_scalar (apply_wellFormed _ s t)

theorem mul_real (ha : a.WellFormedReal) (hb : b.WellFormedReal) :
    Returns WellFormedReal (mul a b) :=
  mulWithin_real _ ha hb

theorem mulWithin_suits (height : Nat) (ha : a.WellFormed) (hb : b.WellFormed) :
    Returns (Suits (a.join b)) (mulWithin height a b) := by
  unfold mulWithin
  split
  · rename_i s t
    exact (Scalar.apply_suits _ s t).bind fun c hc => (returns_ok _).mpr ⟨hc.wellFormed, hc.yields⟩
  · exact returns_error _ _
  · rename_i hnot
    obtain ⟨-, ⟨hshape, hkind⟩ | ⟨hshape, hkind⟩⟩ := join_cases hnot
    · rw [if_pos hshape, hkind]
      exact suits_of_kind (hamilton_returns (mulWithin_real _) ha hb)
    · obtain ⟨_, _, hac, ha₀, ha₁⟩ := ha.asComplex (kind_ne_of_not_needsQuaternion hshape).1
      obtain ⟨_, _, hbc, hb₀, hb₁⟩ := hb.asComplex (kind_ne_of_not_needsQuaternion hshape).2
      rw [hshape, if_neg Bool.false_ne_true, hac, hbc, hkind]
      exact suits_of_kind ((mulWithin_real _ ha₀ hb₀).bind fun _ hx =>
        (mulWithin_real _ ha₁ hb₁).bind fun _ hy => (sub_real hx hy).bind fun _ hre =>
        (mulWithin_real _ ha₀ hb₁).bind fun _ hx => (mulWithin_real _ ha₁ hb₀).bind fun _ hy =>
        (add_real hx hy).bind fun _ him => (returns_ok _).mpr ⟨⟨hre, him⟩, rfl⟩)

theorem mul_suits (ha : a.WellFormed) (hb : b.WellFormed) : Returns (Suits (a.join b)) (mul a b) :=
  mulWithin_suits _ ha hb

end Products

section Quotients

variable {a b : Number}

theorem normSquared_real (ha : ∀ c ∈ a.components, c.WellFormedReal) :
    Returns WellFormedReal a.normSquared :=
  Returns.foldlM wellFormedReal_zero fun _ hsum c hc =>
    (mul_real (ha c hc) (ha c hc)).bind fun _ hsquare => add_real hsum hsquare

theorem neg_real (ha : a.WellFormedReal) : Returns WellFormedReal a.neg := by
  obtain ⟨s, rfl, hs⟩ := ha
  exact returns_scalar (Scalar.neg_wellFormed hs)

theorem neg_returns (ha : a.WellFormed) : Returns WellFormed a.neg := by
  cases a with
  | scalar s => exact (neg_real (wellFormedReal_scalar ha)).mono fun _ hc => hc.wellFormed
  | complex re im =>
    exact (returns_complex (neg_real ha.1) (neg_real ha.2)).mono fun _ hc => hc.1
  | quaternion re i j k =>
    obtain ⟨hre, hi, hj, hk⟩ := ha
    exact (returns_quaternion (neg_real hre) (neg_real hi) (neg_real hj) (neg_real hk)).mono
      fun _ hc => hc.1

theorem divWithin_real (height : Nat) (ha : a.WellFormedReal) (hb : b.WellFormedReal) :
    Returns WellFormedReal (divWithin height a b) := by
  obtain ⟨s, rfl, -⟩ := ha
  obtain ⟨t, rfl, -⟩ := hb
  rw [divWithin]
  exact returns_scalar ((Scalar.div_suits s t).mono fun _ h => h.wellFormed)

theorem divWithin_suits (height : Nat) (ha : a.WellFormed) (hb : b.WellFormed) :
    Returns (Suits (a.join b)) (divWithin height a b) := by
  unfold divWithin
  split
  · rename_i s t
    exact (Scalar.div_suits s t).bind fun c hc => (returns_ok _).mpr ⟨hc.wellFormed, hc.yields⟩
  · exact returns_error _ _
  · rename_i hnot
    obtain ⟨-, ⟨hshape, hkind⟩ | ⟨hshape, hkind⟩⟩ := join_cases hnot
    · obtain ⟨b₀, b₁, b₂, b₃, hbc, hb₀, hb₁, hb₂, hb₃⟩ := hb.asQuaternion
      have hconjugate : Returns WellFormed (quaternion b₀ b₁ b₂ b₃).conjugate :=
        (returns_quaternion ((returns_ok _).mpr hb₀) (neg_real hb₁) (neg_real hb₂)
          (neg_real hb₃)).mono fun _ hc => hc.1
      rw [if_pos hshape, hbc, hkind]
      refine suits_of_kind ((normSquared_real ?_).bind fun norm hnorm =>
        Returns.ite (fun _ => returns_error _ _) fun _ => hconjugate.bind fun _ hc =>
          (hamilton_returns mul_real ha hc).bind fun product hproduct => ?_)
      · simp only [components, List.forall_mem_cons, List.not_mem_nil, false_implies, implies_true,
          and_true]
        exact ⟨hb₀, hb₁, hb₂, hb₃⟩
      · obtain ⟨_, _, _, _, hpc, hp₀, hp₁, hp₂, hp₃⟩ := hproduct.1.asQuaternion
        rw [hpc]
        exact returns_quaternion (divWithin_real _ hp₀ hnorm) (divWithin_real _ hp₁ hnorm)
          (divWithin_real _ hp₂ hnorm) (divWithin_real _ hp₃ hnorm)
    · obtain ⟨_, _, hac, ha₀, ha₁⟩ := ha.asComplex (kind_ne_of_not_needsQuaternion hshape).1
      obtain ⟨_, _, hbc, hb₀, hb₁⟩ := hb.asComplex (kind_ne_of_not_needsQuaternion hshape).2
      rw [hshape, if_neg Bool.false_ne_true, hac, hbc, hkind]
      refine suits_of_kind ((normSquared_real ?_).bind fun norm hnorm =>
        Returns.ite (fun _ => returns_error _ _) fun _ =>
          (mul_real ha₀ hb₀).bind fun _ hx => (mul_real ha₁ hb₁).bind fun _ hy =>
          (add_real hx hy).bind fun _ hre =>
          (mul_real ha₁ hb₀).bind fun _ hx => (mul_real ha₀ hb₁).bind fun _ hy =>
          (sub_real hx hy).bind fun _ him =>
          returns_complex (divWithin_real _ hre hnorm) (divWithin_real _ him hnorm))
      simp only [components, List.forall_mem_cons, List.not_mem_nil, false_implies, implies_true,
        and_true]
      exact ⟨hb₀, hb₁⟩

theorem div_suits (ha : a.WellFormed) (hb : b.WellFormed) : Returns (Suits (a.join b)) (div a b) :=
  divWithin_suits _ ha hb

end Quotients

end Number

end TowerLisp
