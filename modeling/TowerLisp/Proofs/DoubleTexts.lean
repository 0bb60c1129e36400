import TowerLisp.Decimal.Written
import TowerLisp.Proofs.DoubleRounding
import TowerLisp.Proofs.IntegerText
import TowerLisp.Proofs.ShortestDigits

/-!
The decimal of a double. The text of a double is a numeral in one of several layouts, and each
of them is read as the digits and the exponent that the search for the fewest digits found.
-/

namespace TowerLisp

namespace Text

open Numeral (ofDigits takeDigits takeSign)

/-- The values of a row of digits. -/
def digitValues (digits : List Char) : List ℕ :=
  digits.map fun c => c.toNat - '0'.toNat

theorem ofDigits_append (xs ys : List ℕ) :
    ofDigits (xs ++ ys) = ofDigits xs * 10 ^ ys.length + ofDigits ys := by
  have hfoldl : ∀ n, ys.foldl (fun n d => 10 * n + d) n = n * 10 ^ ys.length + ofDigits ys := by
    intro n
    unfold ofDigits
    induction ys generalizing n with
    | nil => simp
    | cons y ys ih =>
      rw [List.foldl_cons, List.foldl_cons, ih, ih (10 * 0 + y), List.length_cons, pow_succ]
      ring
  rw [ofDigits, List.foldl_append]
  exact hfoldl _

theorem digitValues_append (xs ys : List Char) :
    digitValues (xs ++ ys) = digitValues xs ++ digitValues ys :=
  List.map_append

theorem ofDigits_zeros (k : ℕ) : ofDigits (digitValues (Binary64.zeroChars k)) = 0 := by
  induction k with
  | zero => rfl
  | succ k ih => exact ih

/-- The digits at the start of a text are taken as far as they go. -/
theorem takeDigits_append {digits rest : List Char} (hdigits : ∀ c ∈ digits, c ∈ asciiDigits)
    (hrest : ∀ c ∈ rest.head?, digitValue? c = none) :
    takeDigits (digits ++ rest) = (digitValues digits, rest) := by
  induction digits with
  | nil =>
    cases rest with
    | nil => rfl
    | cons c rest =>
      rw [List.nil_append, takeDigits, hrest c rfl]
      rfl
  | cons c cs ih =>
    rw [List.forall_mem_cons] at hdigits
    rw [List.cons_append, takeDigits, digitValue?_ascii hdigits.1, ih hdigits.2]
    rfl

/-- A minus sign, or none. -/
def signChars (negative : Bool) : List Char :=
  if negative then ['-'] else []

theorem takeSign_digits (s : Bool) {digits : List Char} (hdigits : ∀ c ∈ digits, c ∈ asciiDigits)
    (hne : digits ≠ []) (rest : List Char) :
    takeSign (signChars s ++ (digits ++ rest)) = (s, digits ++ rest) := by
  cases s with
  | true => rfl
  | false =>
    obtain ⟨c, cs, rfl⟩ := List.exists_cons_of_ne_nil hne
    have hsigns : ∀ c ∈ asciiDigits, c ≠ '-' ∧ c ≠ '+' := forall_mem_of_all (by decide)
    obtain ⟨hminus, hplus⟩ := hsigns c (hdigits c List.mem_cons_self)
    change takeSign (c :: (cs ++ rest)) = _
    unfold takeSign
    split
    · rename_i h
      exact absurd (List.cons.inj h).1 hminus
    · rename_i h
      exact absurd (List.cons.inj h).1 hplus
    · rfl

theorem zeroChars_ascii (k : ℕ) : ∀ c ∈ Binary64.zeroChars k, c ∈ asciiDigits := by
  intro c hc
  rw [List.eq_of_mem_replicate hc]
  decide

theorem ascii_append {xs ys : List Char} (hxs : ∀ c ∈ xs, c ∈ asciiDigits)
    (hys : ∀ c ∈ ys, c ∈ asciiDigits) : ∀ c ∈ xs ++ ys, c ∈ asciiDigits := by
  intro c hc
  exact (List.mem_append.mp hc).elim (hxs c) (hys c)

/-- An exponent is read as it was written. -/
theorem exponent?_exponentChars (e : ℤ) :
    Numeral.exponent? (Binary64.exponentChars e) = some e := by
  let digits := Binary64.zeroChars (2 - (Nat.toDigits 10 e.natAbs).length) ++
    Nat.toDigits 10 e.natAbs
  have hdigits : ∀ c ∈ digits, c ∈ asciiDigits := ascii_append (zeroChars_ascii _) toDigits_ascii
  have htaken : takeDigits (digits ++ []) = (digitValues digits, []) :=
    takeDigits_append hdigits nofun
  rw [List.append_nil] at htaken
  have hvalue : ofDigits (digitValues digits) = e.natAbs := by
    rw [digitValues_append, ofDigits_append, ofDigits_zeros, zero_mul, zero_add]
    exact ofDigits_toDigits _
  have hne : digitValues digits ≠ [] := by
    simp [digitValues, digits, Nat.toDigits_ne_nil]
  have hsign : takeSign ((if e < 0 then '-' else '+') :: digits) = (decide (e < 0), digits) := by
    by_cases he : e < 0 <;> simp [he, takeSign]
  change Numeral.exponent? ('e' :: (if e < 0 then '-' else '+') :: digits) = some e
  have hmark : (decide ('e' = 'e') || decide ('e' = 'E')) = true := rfl
  rw [Numeral.exponent?, if_pos hmark, hsign]
  dsimp only
  rw [htaken]
  generalize digitValues digits = values at hvalue hne
  cases values with
  | nil => contradiction
  | cons d ds =>
    dsimp only
    rw [hvalue, Option.some.injEq]
    split
    · rename_i he
      have := of_decide_eq_true he
      omega
    · rename_i he
      have := of_decide_eq_false (Bool.not_eq_true _ ▸ he)
      omega

/-- A numeral: digits, a point with further digits, and an exponent. -/
theorem parse?_numeral (s : Bool) (whole fraction : List Char) {point tail : List Char} {x : ℤ}
    (hwhole : ∀ c ∈ whole, c ∈ asciiDigits) (hne : whole ≠ [])
    (hpoint : point = '.' :: fraction ∧ (∀ c ∈ fraction, c ∈ asciiDigits) ∨
      point = [] ∧ fraction = [])
    (htail : tail = [] ∨ ∃ rest, tail = 'e' :: rest) (hexponent : Numeral.exponent? tail = some x) :
    Numeral.parse? (signChars s ++ (whole ++ (point ++ tail))) =
      some ⟨s, ofDigits (digitValues (whole ++ fraction)), x - fraction.length⟩ := by
  have hmarks : digitValue? '.' = none ∧ digitValue? 'e' = none := by decide
  have htailHead : ∀ c ∈ tail.head?, digitValue? c = none := by
    obtain rfl | ⟨rest, rfl⟩ := htail
    · nofun
    · rintro c ⟨⟩
      exact hmarks.2
  have hrest : ∀ c ∈ (point ++ tail).head?, digitValue? c = none := by
    obtain ⟨rfl, -⟩ | ⟨rfl, -⟩ := hpoint
    · rintro c ⟨⟩
      exact hmarks.1
    · exact htailHead
  have hempty : (digitValues whole).isEmpty = false := by
    obtain ⟨c, cs, rfl⟩ := List.exists_cons_of_ne_nil hne
    rfl
  have hlength : fraction.length = (digitValues fraction).length := (List.length_map _).symm
  let read (e : ℤ) : Numeral :=
    ⟨s, ofDigits (digitValues whole ++ digitValues fraction), e - (digitValues fraction).length⟩
  unfold Numeral.parse?
  rw [takeSign_digits s hwhole hne]
  dsimp only
  rw [takeDigits_append hwhole hrest, digitValues_append, hlength]
  obtain ⟨rfl, hfraction⟩ | ⟨rfl, rfl⟩ := hpoint
  · change (if (digitValues whole).isEmpty && (takeDigits (fraction ++ tail)).1.isEmpty then none
      else (Numeral.exponent? (takeDigits (fraction ++ tail)).2).map fun e =>
        (⟨s, ofDigits (digitValues whole ++ (takeDigits (fraction ++ tail)).1),
          e - (takeDigits (fraction ++ tail)).1.length⟩ : Numeral)) = _
    rw [takeDigits_append hfraction htailHead, hempty]
    exact congrArg (Option.map read) hexponent
  · dsimp only
    rw [hempty]
    obtain rfl | ⟨rest, rfl⟩ := htail
    · exact congrArg (Option.map read) hexponent
    · exact congrArg (Option.map read) hexponent

end Text

namespace Binary64

open Text (asciiDigits digitValues signChars)
open Text.Numeral (ofDigits)

/-- However digits are laid out, what is read are those digits, with zeros behind them if the
layout has any. -/
theorem parse?_layout (s : Bool) {digits : List Char} (hdigits : ∀ c ∈ digits, c ∈ asciiDigits)
    (hne : digits ≠ []) (point : ℤ) :
    ∃ (j : ℕ) (c : ℕ) (x : ℤ),
      Text.Numeral.parse? (signChars s ++ layout digits point) = some ⟨s, c, x⟩ ∧ j ≤ 17 ∧
        c = ofDigits (digitValues digits) * 10 ^ j ∧ x = point - digits.length - j := by
  have hzeros := Text.zeroChars_ascii
  have hlength : ∀ k, (zeroChars k).length = k := fun k => List.length_replicate
  have hpos : 0 < digits.length := List.length_pos_iff.mpr hne
  unfold layout
  simp only [Bool.and_eq_true, decide_eq_true_eq]
  by_cases hplain : -4 < point ∧ point ≤ 16
  · rw [if_pos hplain]
    by_cases hsmall : point ≤ 0
    · rw [if_pos hsmall]
      have hread := Text.parse?_numeral s (zeroChars 1) (zeroChars (-point).toNat ++ digits)
        (hzeros 1) nofun (Or.inl ⟨rfl, Text.ascii_append (hzeros _) hdigits⟩) (Or.inl rfl) rfl
      rw [List.append_nil] at hread
      refine ⟨0, _, _, hread, by decide, ?_, ?_⟩
      · rw [Text.digitValues_append, Text.digitValues_append, Text.ofDigits_append,
          Text.ofDigits_append, Text.ofDigits_zeros, Text.ofDigits_zeros]
        simp
      · rw [List.length_append, hlength]
        omega
    · rw [if_neg hsmall]
      by_cases hlong : digits.length ≤ point.toNat
      · rw [if_pos hlong]
        have hread := Text.parse?_numeral s (digits ++ zeroChars (point.toNat - digits.length))
          (zeroChars 1) (Text.ascii_append hdigits (hzeros _)) (by simp [hne])
          (Or.inl ⟨rfl, hzeros 1⟩) (Or.inl rfl) rfl
        rw [List.append_nil] at hread
        refine ⟨point.toNat - digits.length + 1, _, _, hread, by omega, ?_, ?_⟩
        · rw [Text.digitValues_append, Text.digitValues_append, Text.ofDigits_append,
            Text.ofDigits_append, Text.ofDigits_zeros, Text.ofDigits_zeros]
          simp only [digitValues, List.length_map, hlength, add_zero, pow_succ, pow_zero, one_mul,
            mul_assoc]
        · rw [hlength]
          omega
      · rw [if_neg hlong]
        have htake : digits.take point.toNat ≠ [] := by
          rw [ne_eq, List.take_eq_nil_iff, not_or]
          exact ⟨by omega, hne⟩
        have hread := Text.parse?_numeral s (digits.take point.toNat) (digits.drop point.toNat)
          (fun c hc => hdigits c (List.mem_of_mem_take hc)) htake
          (Or.inl ⟨rfl, fun c hc => hdigits c (List.mem_of_mem_drop hc)⟩) (Or.inl rfl) rfl
        rw [List.append_nil] at hread
        refine ⟨0, _, _, hread, by decide, ?_, ?_⟩
        · rw [List.take_append_drop, pow_zero, mul_one]
        · rw [List.length_drop]
          omega
  · rw [if_neg hplain]
    cases digits with
    | nil => exact absurd rfl hne
    | cons d rest =>
      rw [List.forall_mem_cons] at hdigits
      have hfirst : ∀ c ∈ [d], c ∈ asciiDigits := List.forall_mem_singleton.mpr hdigits.1
      cases rest with
      | nil =>
        have hread := Text.parse?_numeral s [d] [] hfirst nofun (Or.inr ⟨rfl, rfl⟩)
          (Or.inr ⟨_, rfl⟩) (Text.exponent?_exponentChars (point - 1))
        exact ⟨0, _, _, hread, by decide, by simp, by simp⟩
      | cons c cs =>
        have hread := Text.parse?_numeral s [d] (c :: cs) hfirst nofun (Or.inl ⟨rfl, hdigits.2⟩)
          (Or.inr ⟨_, rfl⟩) (Text.exponent?_exponentChars (point - 1))
        refine ⟨0, _, _, hread, by decide, by simp, ?_⟩
        simp only [List.length_cons]
        omega

/-- The characters of the text of a finite double. -/
def plainChars : List Char :=
  "0123456789.e+-".toList

theorem ascii_plain : ∀ c ∈ asciiDigits, c ∈ plainChars :=
  Text.forall_mem_of_all (by decide)

theorem signChars_plain (s : Bool) : ∀ c ∈ Text.signChars s, c ∈ plainChars := by
  cases s <;> exact Text.forall_mem_of_all (by decide)

theorem exponentChars_plain (e : ℤ) : ∀ c ∈ exponentChars e, c ∈ plainChars := by
  have hzeros := Text.zeroChars_ascii (2 - (Nat.toDigits 10 e.natAbs).length)
  have hdigits : ∀ c ∈ Nat.toDigits 10 e.natAbs, c ∈ asciiDigits := Text.toDigits_ascii
  intro c hc
  simp only [exponentChars, List.cons_append, List.mem_cons, List.mem_append] at hc
  rcases hc with rfl | rfl | hc | hc
  · decide
  · split <;> decide
  · exact ascii_plain c (hzeros c hc)
  · exact ascii_plain c (hdigits c hc)

theorem layout_plain {digits : List Char} (hdigits : ∀ c ∈ digits, c ∈ asciiDigits) (point : ℤ) :
    ∀ c ∈ layout digits point, c ∈ plainChars := by
  have hplain : ∀ {row : List Char}, (∀ c ∈ row, c ∈ asciiDigits) → ∀ c ∈ row, c ∈ plainChars :=
    fun hrow c hc => ascii_plain c (hrow c hc)
  have hzeros : ∀ k, ∀ c ∈ zeroChars k, c ∈ plainChars := fun k => hplain (Text.zeroChars_ascii k)
  have hpoint : '.' ∈ plainChars := by decide
  have hzero : '0' ∈ plainChars := by decide
  have hexponent := exponentChars_plain (point - 1)
  unfold layout
  split
  · split
    · simp only [List.forall_mem_append, List.forall_mem_cons]
      exact ⟨⟨hzero, hpoint, hzeros _⟩, hplain hdigits⟩
    · split
      · simp only [List.forall_mem_append, List.forall_mem_cons]
        exact ⟨⟨hplain hdigits, hzeros _⟩, hpoint, hzero, nofun⟩
      · simp only [List.forall_mem_append, List.forall_mem_cons]
        exact ⟨fun c hc => hplain hdigits c (List.mem_of_mem_take hc), hpoint,
          fun c hc => hplain hdigits c (List.mem_of_mem_drop hc)⟩
  · have hrow := hplain hdigits
    split
    · exact hexponent
    · exact List.forall_mem_cons.mpr ⟨hrow _ List.mem_cons_self, hexponent⟩
    · simp only [List.forall_mem_append, List.forall_mem_cons] at hrow ⊢
      exact ⟨⟨hrow.1, hpoint, hrow.2⟩, hexponent⟩

end Binary64

namespace Decimal

/-- Plain texts are read as they stand. -/
theorem parse?_plain {cs : List Char} (hcs : ∀ c ∈ cs, c ∈ Binary64.plainChars)
    {n : Text.Numeral} (hread : Text.Numeral.parse? cs = some n)
    (hmax : n.exponent + Digits.count n.coefficient - 1 ≤ readMaxExponent)
    (hmin : readMinExponent ≤ n.exponent) :
    parse? cs = some (finite n.negative n.coefficient n.exponent) := by
  have hplain : ∀ c ∈ Binary64.plainChars, Text.isBlank c = false ∧ (c != '_') = true :=
    Text.forall_mem_of_all (by decide)
  have htrim : Text.trim cs = cs := Text.trimWhile_eq fun c hc => (hplain c (hcs c hc)).1
  have hfilter : cs.filter (· != '_') = cs :=
    List.filter_eq_self.mpr fun c hc => (hplain c (hcs c hc)).2
  unfold parse?
  dsimp only
  rw [htrim, hfilter, hread]
  dsimp only
  rw [if_neg (by simp only [Bool.or_eq_true, decide_eq_true_eq]; omega)]

/-- The decimal of a finite double is that of its shortest digits. -/
theorem ofBinary64_finite (s : Bool) {m : ℕ} {e : ℤ} (hm : 0 < m)
    (hrange : (Binary64.finite s m e).InRange) :
    (ofBinary64 (.finite s m e)).toRat? =
      some (denoted s (Binary64.shortest m e).1 (Binary64.shortest m e).2) := by
  obtain ⟨hmantissa, hlow, hhigh⟩ := hrange
  obtain ⟨-, hdigits, hleast, hgreatest⟩ := Binary64.shortest_spec hm hmantissa hlow hhigh
  have htext : (Binary64.finite s m e).textChars = Text.signChars s ++
      Binary64.layout (Nat.toDigits 10 (Binary64.shortest m e).1)
        ((Nat.toDigits 10 (Binary64.shortest m e).1).length + (Binary64.shortest m e).2) := by
    rw [Binary64.textChars, if_neg hm.ne']
    rfl
  generalize Binary64.shortest m e = digits at hdigits hleast hgreatest htext ⊢
  obtain ⟨d, k⟩ := digits
  dsimp only at hdigits hleast hgreatest htext ⊢
  have hrow : ∀ c ∈ Nat.toDigits 10 d, c ∈ Text.asciiDigits := Text.toDigits_ascii
  obtain ⟨j, c, x, hread, hj, hc, hx⟩ := Binary64.parse?_layout s hrow Nat.toDigits_ne_nil
    ((Nat.toDigits 10 d).length + k)
  obtain rfl : x = k - j := by omega
  obtain rfl : c = d * 10 ^ j := by rw [hc, Text.digitValues, Text.ofDigits_toDigits]
  have hcount : Digits.count (d * 10 ^ j) ≤ 2018 := by
    refine Digits.count_le (by decide) ?_
    calc d * 10 ^ j ≤ 10 ^ (2000 + 17) :=
          Binary64.mul_le_pow hdigits (pow_le_pow_right₀ (by decide) hj)
      _ < 10 ^ 2018 := pow_lt_pow_right₀ (by decide) (by decide)
  have hplain : ∀ c ∈ Text.signChars s ++ Binary64.layout (Nat.toDigits 10 d)
      ((Nat.toDigits 10 d).length + k), c ∈ Binary64.plainChars :=
    List.forall_mem_append.mpr ⟨Binary64.signChars_plain s, Binary64.layout_plain hrow _⟩
  have hmax : readMaxExponent = 999999999999999999 := rfl
  have hmin : readMinExponent = -1999999999999999997 := rfl
  rw [ofBinary64, htext, parse?_plain hplain hread (by dsimp only; omega) (by dsimp only; omega)]
  rw [Option.getD_some, toRat?_finite, denoted_shift, sub_add_cancel]

/-- Every finite double has a finite decimal, which is zero for the zeros alone. -/
theorem exists_ofBinary64 {x : Binary64} (hfinite : x.isFinite = true) (hrange : x.InRange) :
    ∃ v, (ofBinary64 x).toRat? = some v ∧ (v = 0 ↔ x.isZero = true) := by
  cases x with
  | infinite s => cases hfinite
  | nan => cases hfinite
  | finite s m e =>
    rcases Nat.eq_zero_or_pos m with rfl | hm
    · refine ⟨0, ?_, by simp [Binary64.isZero]⟩
      rw [ofBinary64, Binary64.textChars, if_pos rfl]
      cases s
      · decide
      · decide
    · refine ⟨_, ofBinary64_finite s hm hrange, ?_⟩
      obtain ⟨hmantissa, hlow, hhigh⟩ := hrange
      obtain ⟨hpos, -⟩ := Binary64.shortest_spec hm hmantissa hlow hhigh
      rw [denoted_eq_zero_iff]
      simp [Binary64.isZero, hpos.ne', hm.ne']

end Decimal

end TowerLisp
