import Mathlib.Data.List.TakeWhile
import TowerLisp.Number.Offered
import TowerLisp.Proofs.ExactNumbers
import TowerLisp.Proofs.IntegerText

/-!
The text of an exact number. It is one numeric token, and reading it gives the number
back, except that a complex number without an imaginary part is written and read as
its real part.
-/

namespace TowerLisp.Number

open Text (asciiDigits forall_mem_of_all)

/-- The numerator and the denominator are short enough to be written. -/
def Fits (q : ℚ) : Prop :=
  q.num.natAbs < 10 ^ Digits.textLimit ∧ q.den < 10 ^ Digits.textLimit

/-- The digits of a rational number without its sign. -/
def magnitudeText (q : ℚ) : List Char :=
  Nat.toDigits 10 q.num.natAbs ++ if q.den = 1 then [] else '/' :: Nat.toDigits 10 q.den

def ratText (q : ℚ) : List Char :=
  (if q < 0 then ['-'] else []) ++ magnitudeText q

/-- A rational number with its sign in front of a unit. -/
def coefficientText (q : ℚ) : List Char :=
  (if q < 0 then '-' else '+') :: if |q| = 1 then [] else magnitudeText q

theorem writable_iff (n : ℤ) : Digits.writable n = true ↔ n.natAbs < 10 ^ Digits.textLimit := by
  rw [Digits.writable, Nat.pow_eq, decide_eq_true_eq]

theorem integerText_eq_ok {n : ℤ} {t : String} (h : integerText n = .ok t) :
    n.natAbs < 10 ^ Digits.textLimit ∧ t = n.repr := by
  unfold integerText at h
  split at h
  · rename_i hn
    cases h
    exact ⟨(writable_iff n).mp hn, rfl⟩
  · cases h

theorem one_fits : 1 < 10 ^ Digits.textLimit :=
  Nat.one_lt_pow (by decide) (by decide)

/-- A rational number is written by its digits, if it is short enough. -/
theorem text_ofRat {q : ℚ} {t : String} (h : (Scalar.ofRat q).text = .ok t) :
    Fits q ∧ t.toList = ratText q := by
  obtain ⟨n, rfl, -, hform⟩ | ⟨n, rfl, -, hform⟩ | ⟨hden, hform⟩ := Scalar.ofRat_cases q
  · rw [hform] at h
    obtain ⟨hn, rfl⟩ := integerText_eq_ok h
    refine ⟨⟨hn, one_fits⟩, ?_⟩
    rw [Text.toList_repr, ratText, magnitudeText]
    simp
  · rw [hform] at h
    obtain ⟨hn, rfl⟩ := integerText_eq_ok h
    refine ⟨⟨hn, one_fits⟩, ?_⟩
    rw [Text.toList_repr, ratText, magnitudeText]
    simp
  · rw [hform] at h
    obtain ⟨num, hnum, h⟩ := bind_eq_ok h
    obtain ⟨den, hden', h⟩ := bind_eq_ok h
    cases h
    obtain ⟨hn, rfl⟩ := integerText_eq_ok hnum
    obtain ⟨hd, rfl⟩ := integerText_eq_ok hden'
    refine ⟨⟨hn, hd⟩, ?_⟩
    simp [Text.toList_repr, ratText, magnitudeText, hden]

section Splitting

variable {p : Char → Bool} {before after : List Char} {c : Char}

theorem span_append (hbefore : ∀ d ∈ before, p d = true) (hc : p c = false) :
    (before ++ c :: after).span p = (before, c :: after) := by
  rw [List.span_eq_takeWhile_dropWhile, List.takeWhile_append_of_pos hbefore,
    List.dropWhile_append_of_pos hbefore, List.takeWhile_cons_of_neg (by simp [hc]),
    List.dropWhile_cons_of_neg (by simp [hc]), List.append_nil]

theorem splitFirst_append (hbefore : c ∉ before) :
    splitFirst c (before ++ c :: after) = some (before, after) := by
  have hspan : (before ++ c :: after).span (· != c) = (before, c :: after) := by
    refine span_append (fun d hd => ?_) (by simp)
    rw [bne_iff_ne]
    rintro rfl
    exact hbefore hd
  rw [splitFirst, hspan]

theorem splitLast_append (hc : p c = true) (hafter : ∀ d ∈ after, p d = false) :
    splitLast p (before ++ c :: after) = some (before, c, after) := by
  have hreverse : (before ++ c :: after).reverse = after.reverse ++ c :: before.reverse := by
    simp
  have hspan : (before ++ c :: after).reverse.span (!p ·) =
      (after.reverse, c :: before.reverse) := by
    rw [hreverse]
    exact span_append (fun d hd => by rw [hafter d (List.mem_reverse.mp hd)]; rfl) (by simp [hc])
  rw [splitLast, hspan]
  simp

theorem splitLast_none {cs : List Char} (hcs : ∀ d ∈ cs, p d = false) : splitLast p cs = none := by
  have hspan : cs.reverse.span (!p ·) = (cs.reverse, []) := by
    have hall : ∀ d ∈ cs.reverse, (!p d) = true := fun d hd => by
      rw [hcs d (List.mem_reverse.mp hd)]
      rfl
    rw [List.span_eq_takeWhile_dropWhile, List.takeWhile_eq_self_iff.mpr hall,
      List.dropWhile_eq_nil_iff.mpr hall]
  rw [splitLast, hspan]

end Splitting

/-- The characters of the digits of a rational number. -/
def magnitudeChars : List Char :=
  "0123456789/".toList

theorem magnitudeText_chars (q : ℚ) : ∀ c ∈ magnitudeText q, c ∈ magnitudeChars := by
  have hdigits : ∀ c ∈ asciiDigits, c ∈ magnitudeChars := forall_mem_of_all (by decide)
  intro c hc
  rw [magnitudeText, List.mem_append] at hc
  obtain hc | hc := hc
  · exact hdigits c (Text.toDigits_ascii c hc)
  · split at hc
    · cases hc
    · rw [List.mem_cons] at hc
      obtain rfl | hc := hc
      · decide
      · exact hdigits c (Text.toDigits_ascii c hc)

theorem magnitudeText_cons (q : ℚ) :
    ∃ digit rest, digit ∈ asciiDigits ∧ magnitudeText q = digit :: rest := by
  obtain ⟨digit, rest, h⟩ := List.exists_cons_of_ne_nil
    (Nat.toDigits_ne_nil : Nat.toDigits 10 q.num.natAbs ≠ [])
  have hdigit : digit ∈ Nat.toDigits 10 q.num.natAbs := by
    rw [h]
    exact List.mem_cons_self
  refine ⟨digit, rest ++ if q.den = 1 then [] else '/' :: Nat.toDigits 10 q.den,
    Text.toDigits_ascii digit hdigit, ?_⟩
  rw [magnitudeText, h, List.cons_append]

/-- The rational number of a sign and the digits of another. -/
def signedRat (sign : List Char) (q : ℚ) : ℚ :=
  if sign = ['-'] then -|q| else |q|

theorem signedRat_eq (sign : List Char) (q : ℚ) :
    signedRat sign q = mkRat (Text.signed sign q.num.natAbs) q.den := by
  have habs : |q| = mkRat q.num.natAbs q.den := by
    rw [Rat.abs_def, Rat.divInt_ofNat]
  unfold signedRat Text.signed
  split
  · rw [habs, Rat.neg_mkRat]
  · exact habs

section Signed

variable {sign : List Char} (hsign : sign = [] ∨ sign = ['+'] ∨ sign = ['-'])

include hsign

theorem signedText_chars (q : ℚ) :
    ∀ c ∈ sign ++ magnitudeText q, c ∈ "0123456789/+-".toList := by
  have hall : ∀ c ∈ magnitudeChars, c ∈ "0123456789/+-".toList := forall_mem_of_all (by decide)
  intro c hc
  rw [List.mem_append] at hc
  obtain hc | hc := hc
  · obtain rfl | rfl | rfl := hsign
    · cases hc
    · rw [List.mem_singleton.mp hc]
      decide
    · rw [List.mem_singleton.mp hc]
      decide
  · exact hall c (magnitudeText_chars q c hc)

theorem readInteger_magnitude {q : ℚ} (hq : Fits q) (hden : q.den = 1) :
    readInteger (sign ++ magnitudeText q) = .ok (ofRat (signedRat sign q)) := by
  rw [readInteger, magnitudeText, if_pos hden, List.append_nil, Text.integer?_digits hsign hq.1,
    signedRat_eq, hden, Rat.mkRat_one, ofRat, Scalar.ofRat_intCast]
  rfl

theorem slash_not_mem (n : Nat) : '/' ∉ sign ++ Nat.toDigits 10 n := by
  have hdigits : '/' ∉ asciiDigits := by decide
  rw [List.mem_append, not_or]
  refine ⟨?_, fun h => hdigits (Text.toDigits_ascii _ h)⟩
  obtain rfl | rfl | rfl := hsign <;> decide

theorem contains_slash (q : ℚ) :
    (sign ++ magnitudeText q).contains '/' = decide (q.den ≠ 1) := by
  have hslash := slash_not_mem hsign q.num.natAbs
  rw [List.contains_eq_mem, decide_eq_decide, magnitudeText, ← List.append_assoc, List.mem_append]
  split
  · rename_i hden
    simp [hden, hslash]
  · rename_i hden
    simp [hden]

theorem readRational_magnitude {q : ℚ} (hq : Fits q) (hden : q.den ≠ 1) :
    readRational (sign ++ magnitudeText q) = .ok (ofRat (signedRat sign q)) := by
  have hden' := Text.integer?_digits (Or.inl rfl) hq.2
  rw [List.nil_append] at hden'
  have hpos := q.den_pos
  rw [readRational, magnitudeText, if_neg hden, ← List.append_assoc,
    splitFirst_append (slash_not_mem hsign _)]
  simp only [Text.integer?_digits hsign hq.1, hden']
  have hvalue : Text.signed [] q.den = q.den := rfl
  rw [hvalue, if_neg (by omega), fraction, if_neg (by omega), if_neg (by omega), signedRat_eq]
  rfl

/-- Digits with a sign are read as a rational number. -/
theorem parseWithin_magnitude {q : ℚ} (hq : Fits q) (depth : Nat) :
    parseWithin (depth + 1) (sign ++ magnitudeText q) = .ok (ofRat (signedRat sign q)) := by
  have hchars := signedText_chars hsign q
  have hplain : ∀ c ∈ "0123456789/+-".toList, Text.isBlank c = false ∧ c ≠ 'i' ∧ c ≠ '.' ∧
      (c == 'i') = false := forall_mem_of_all (by decide)
  have habsent : ∀ d ∈ ['i', 'j', 'k', '.'], d ∉ "0123456789/+-".toList :=
    forall_mem_of_all (by decide)
  have hnotMem : ∀ d ∈ ['i', 'j', 'k', '.'], (sign ++ magnitudeText q).contains d = false := by
    intro d hd
    rw [List.contains_eq_mem, decide_eq_false_iff_not]
    exact fun hmem => habsent d hd (hchars d hmem)
  have htrim : Text.trim (sign ++ magnitudeText q) = sign ++ magnitudeText q :=
    Text.trimWhile_eq fun c hc => (hplain c (hchars c hc)).1
  have hempty : (sign ++ magnitudeText q).isEmpty = false := by
    obtain ⟨digit, rest, -, hcons⟩ := magnitudeText_cons q
    rw [hcons]
    cases sign <;> rfl
  have hquaternion : isQuaternionText (sign ++ magnitudeText q) = false := by
    rw [isQuaternionText, hnotMem 'i' (by simp)]
    rfl
  have hcomplex : isComplexText (sign ++ magnitudeText q) = false := by
    rw [isComplexText, splitLast_none fun c hc => (hplain c (hchars c hc)).2.2.2]
  have hrational : isRationalText (sign ++ magnitudeText q) = decide (q.den ≠ 1) := by
    rw [isRationalText, hnotMem 'i' (by simp), hnotMem 'j' (by simp), hnotMem 'k' (by simp),
      contains_slash hsign]
    simp
  rw [parseWithin, htrim, hempty, hquaternion, hcomplex, hrational, hnotMem '.' (by simp)]
  by_cases hden : q.den = 1
  · rw [← readInteger_magnitude hsign hq hden]
    simp [hden]
  · rw [← readRational_magnitude hsign hq hden]
    simp [hden]

end Signed

/-- A rational number is read from its digits. -/
theorem parseWithin_ratText {q : ℚ} (hq : Fits q) (depth : Nat) :
    parseWithin (depth + 1) (ratText q) = .ok (ofRat q) := by
  unfold ratText
  split
  · rename_i hneg
    rw [parseWithin_magnitude (Or.inr (Or.inr rfl)) hq, signedRat, if_pos rfl, abs_of_neg hneg,
      neg_neg]
  · rename_i hneg
    rw [parseWithin_magnitude (Or.inl rfl) hq, signedRat, if_neg (by decide),
      abs_of_nonneg (not_lt.mp hneg)]

theorem mergeSigns_magnitude (sign : Char) (q : ℚ) :
    mergeSigns (sign :: magnitudeText q) = sign :: magnitudeText q := by
  obtain ⟨digit, rest, hdigit, hcons⟩ := magnitudeText_cons q
  have hsigns : ∀ c ∈ asciiDigits, c ≠ '+' ∧ c ≠ '-' := forall_mem_of_all (by decide)
  obtain ⟨hplus, hminus⟩ := hsigns digit hdigit
  rw [hcons]
  unfold mergeSigns
  split <;> simp_all

theorem unitCoefficient?_magnitude (sign : Char) (q : ℚ) :
    unitCoefficient? (sign :: magnitudeText q) = none := by
  obtain ⟨digit, rest, -, hcons⟩ := magnitudeText_cons q
  rw [hcons]
  simp [unitCoefficient?]

/-- A coefficient is read from its sign and its digits, and from its sign alone if it is
one or minus one. -/
theorem readCoefficient_text {q : ℚ} (hq : Fits q) (depth : Nat) :
    readCoefficient (parseWithin (depth + 1)) (coefficientText q) = .ok (ofRat q) := by
  have hmagnitude : ∀ sign : Char, readCoefficient (parseWithin (depth + 1))
      (sign :: magnitudeText q) = parseWithin (depth + 1) ([sign] ++ magnitudeText q) := by
    intro sign
    rw [readCoefficient, unitCoefficient?_magnitude]
    dsimp only
    rw [mergeSigns_magnitude, unitCoefficient?_magnitude]
    rfl
  unfold coefficientText
  by_cases hneg : q < 0
  · rw [if_pos hneg]
    split
    · rename_i hone
      rw [abs_of_neg hneg, neg_eq_iff_eq_neg] at hone
      rw [hone]
      rfl
    · rw [hmagnitude, parseWithin_magnitude (Or.inr (Or.inr rfl)) hq, signedRat, if_pos rfl,
        abs_of_neg hneg, neg_neg]
  · rw [if_neg hneg]
    split
    · rename_i hone
      rw [abs_of_nonneg (not_lt.mp hneg)] at hone
      rw [hone]
      rfl
    · rw [hmagnitude, parseWithin_magnitude (Or.inr (Or.inl rfl)) hq, signedRat,
        if_neg (by decide), abs_of_nonneg (not_lt.mp hneg)]

theorem zeroLike_ofRat (q : ℚ) : (ofRat q).zeroLike = zero := by
  obtain ⟨n, -, -, h⟩ | ⟨n, -, -, h⟩ | ⟨-, h⟩ := Scalar.ofRat_cases q
  all_goals
    rw [ofRat, h]
    rfl

theorem gt_zeroLike (q : ℚ) : (ofRat q).gt (ofRat q).zeroLike = .ok (decide (0 < q)) := by
  rw [zeroLike_ofRat, zero_eq_ofRat, gt, ofRat, ofRat, compare, Scalar.compare_ofRat]
  change Except.ok (_ == Ordering.gt) = _
  rcases lt_trichotomy q 0 with hlt | heq | hgt
  · simp [hlt, hlt.not_gt]
  · simp [heq]
  · simp [hgt, hgt.not_gt]

theorem equal_one (q : ℚ) : (ofRat q).equal one = .ok (decide (q = 1)) :=
  equalWithin_ofRat _ q 1

theorem magnitudeText_abs (q : ℚ) : magnitudeText |q| = magnitudeText q := by
  rw [magnitudeText, magnitudeText, Rat.num_abs_eq_abs_num, Rat.den_abs_eq_den, Int.natAbs_abs]

theorem fits_abs {q : ℚ} (h : Fits |q|) : Fits q := by
  rwa [Fits, Rat.num_abs_eq_abs_num, Rat.den_abs_eq_den, Int.natAbs_abs] at h

theorem fits_of_abs_one {q : ℚ} (h : |q| = 1) : Fits q :=
  fits_abs (by rw [h]; exact ⟨one_fits, one_fits⟩)

/-- A term that is written has its coefficient and its unit. -/
theorem termText_ofRat {q : ℚ} {unit t : String} {showZero : Bool}
    (hshown : q ≠ 0 ∨ showZero = true)
    (h : termText (textWithin 0) (ofRat q) unit showZero = .ok t) :
    Fits q ∧ t.toList = coefficientText q ++ unit.toList := by
  by_cases hzero : q = 0
  · obtain rfl : showZero = true := hshown.resolve_left (fun hne => hne hzero)
    subst hzero
    cases h
    refine ⟨⟨lt_trans zero_lt_one one_fits, one_fits⟩, ?_⟩
    rw [if_pos rfl, String.toList_append]
    rfl
  · have hterm : ∀ sign : String,
        ((ofRat |q|).equal one >>= fun isOne =>
          if isOne = true then pure (sign ++ unit)
          else textWithin 0 (ofRat |q|) >>= fun magnitude => pure (sign ++ magnitude ++ unit)) =
            .ok t →
        Fits q ∧ t.toList =
          sign.toList ++ (if |q| = 1 then [] else magnitudeText q) ++ unit.toList := by
      intro sign hsigned
      rw [equal_one, ok_bind] at hsigned
      by_cases hone : |q| = 1
      · rw [if_pos (decide_eq_true hone)] at hsigned
        cases hsigned
        rw [if_pos hone, String.toList_append, List.append_nil]
        exact ⟨fits_of_abs_one hone, rfl⟩
      · rw [if_neg (by simpa using hone)] at hsigned
        obtain ⟨magnitude, hmagnitude, hsigned⟩ := bind_eq_ok hsigned
        cases hsigned
        obtain ⟨hfits, htext⟩ := text_ofRat hmagnitude
        rw [ratText, if_neg (not_lt.mpr (abs_nonneg q)), magnitudeText_abs,
          List.nil_append] at htext
        rw [if_neg hone, String.toList_append, String.toList_append, htext]
        exact ⟨fits_abs hfits, rfl⟩
    rw [termText, isZero_ofRat, decide_eq_false hzero, gt_zeroLike, ok_bind,
      if_neg Bool.false_ne_true] at h
    by_cases hpos : 0 < q
    · rw [decide_eq_true hpos, if_pos rfl, ← abs_of_pos hpos] at h
      rw [coefficientText, if_neg hpos.not_gt]
      exact hterm "+" h
    · have hneg : q < 0 := lt_of_le_of_ne (not_lt.mp hpos) hzero
      rw [decide_eq_false hpos, if_neg Bool.false_ne_true, neg_ofRat, ← abs_of_neg hneg] at h
      rw [coefficientText, if_pos hneg]
      exact hterm "-" h

/-- The characters of the parts of a complex number or a quaternion. -/
def partChars : List Char :=
  "0123456789/+-".toList

theorem ratText_chars (q : ℚ) : ∀ c ∈ ratText q, c ∈ partChars := by
  unfold ratText
  split
  · exact signedText_chars (Or.inr (Or.inr rfl)) q
  · exact signedText_chars (Or.inl rfl) q

theorem coefficientText_cons (q : ℚ) :
    ∃ sign digits, coefficientText q = sign :: digits ∧ isSign sign = true ∧
      ∀ c ∈ digits, c ∈ magnitudeChars := by
  refine ⟨_, _, rfl, ?_, ?_⟩
  · split <;> rfl
  · split
    · nofun
    · exact magnitudeText_chars q

theorem coefficientText_chars (q : ℚ) : ∀ c ∈ coefficientText q, c ∈ partChars := by
  have hall : ∀ c ∈ magnitudeChars, c ∈ partChars := forall_mem_of_all (by decide)
  obtain ⟨sign, digits, htext, hsign, hdigits⟩ := coefficientText_cons q
  rw [htext]
  refine List.forall_mem_cons.mpr ⟨?_, fun c hc => hall c (hdigits c hc)⟩
  rw [isSign, Bool.or_eq_true, beq_iff_eq, beq_iff_eq] at hsign
  obtain rfl | rfl := hsign <;> decide

/-- The text of a rational number has a digit, at its start or behind a minus sign. -/
theorem ratText_cons (q : ℚ) : ∃ sign digit rest, (sign = [] ∨ sign = ['-']) ∧
    digit ∈ asciiDigits ∧ (∀ c ∈ rest, c ∈ magnitudeChars) ∧ ratText q = sign ++ digit :: rest := by
  obtain ⟨digit, rest, hdigit, hcons⟩ := magnitudeText_cons q
  have hrest : ∀ c ∈ rest, c ∈ magnitudeChars := by
    intro c hc
    exact magnitudeText_chars q c (by rw [hcons]; exact List.mem_cons_of_mem _ hc)
  refine ⟨if q < 0 then ['-'] else [], digit, rest, ?_, hdigit, hrest, ?_⟩
  · split
    · exact Or.inr rfl
    · exact Or.inl rfl
  · rw [ratText, hcons]

/-- A coefficient behind a real part is split off at its sign. -/
theorem splitReal_text (p q : ℚ) :
    splitReal (ratText p ++ coefficientText q) = (some (ratText p), coefficientText q) := by
  have hsigns : ∀ c ∈ magnitudeChars, isSign c = false := forall_mem_of_all (by decide)
  have hdigits : ∀ c ∈ asciiDigits, c ≠ '+' ∧ c ≠ '-' := forall_mem_of_all (by decide)
  obtain ⟨sign, digits, hq, hsign, hmagnitude⟩ := coefficientText_cons q
  obtain ⟨minus, digit, rest, hminus, hdigit, -, hp⟩ := ratText_cons p
  have hsplit : ∀ before,
      splitLast isSign (before ++ sign :: digits) = some (before, sign, digits) :=
    fun before => splitLast_append hsign fun c hc => hsigns c (hmagnitude c hc)
  obtain ⟨hplus, hdash⟩ := hdigits digit hdigit
  rw [hq, hp]
  obtain rfl | rfl := hminus
  · rw [List.nil_append, List.cons_append, splitReal, hsplit]
    simp [hplus, hdash]
  · rw [List.singleton_append, List.cons_append, splitReal, hsplit]
    simp

theorem trim_of_mem {cs : List Char} (h : ∀ c ∈ cs, c ∈ "0123456789/+-ijk".toList) :
    Text.trim cs = cs := by
  have hblank : ∀ c ∈ "0123456789/+-ijk".toList, Text.isBlank c = false :=
    forall_mem_of_all (by decide)
  exact Text.trimWhile_eq fun c hc => hblank c (h c hc)

/-- The text of a complex number with an imaginary part. -/
def complexText (p q : ℚ) : List Char :=
  ratText p ++ coefficientText q ++ ['i']

def quaternionText (p q r s : ℚ) : List Char :=
  ratText p ++ coefficientText q ++
    'i' :: (coefficientText r ++ 'j' :: (coefficientText s ++ ['k']))

theorem parts_chars (p q : ℚ) : ∀ c ∈ ratText p ++ coefficientText q, c ∈ partChars := by
  intro c hc
  rw [List.mem_append] at hc
  obtain hc | hc := hc
  · exact ratText_chars p c hc
  · exact coefficientText_chars q c hc

theorem not_mem_of_parts {cs : List Char} (h : ∀ c ∈ cs, c ∈ partChars) {d : Char}
    (hd : d ∉ partChars) : d ∉ cs :=
  fun hmem => hd (h d hmem)

theorem parseWithin_complexText {p q : ℚ} (hp : Fits p) (hq : Fits q) (depth : Nat) :
    parseWithin (depth + 2) (complexText p q) = .ok (complex (ofRat p) (ofRat q)) := by
  have hparts := parts_chars p q
  have hcontains : ∀ d, d ∉ partChars → d ≠ 'i' → (complexText p q).contains d = false := by
    intro d hd hi
    rw [List.contains_eq_mem, decide_eq_false_iff_not, complexText, List.mem_append, not_or,
      List.mem_singleton]
    exact ⟨not_mem_of_parts hparts hd, hi⟩
  have hall : ∀ c ∈ partChars, c ∈ "0123456789/+-ijk".toList := forall_mem_of_all (by decide)
  have htrim : Text.trim (complexText p q) = complexText p q := by
    refine trim_of_mem fun c hc => ?_
    rw [complexText, List.mem_append, List.mem_singleton] at hc
    obtain hc | rfl := hc
    · exact hall c (hparts c hc)
    · decide
  have hsplit : splitLast (· == 'i') (complexText p q) =
      some (ratText p ++ coefficientText q, 'i', []) :=
    splitLast_append (by decide) nofun
  have hquaternion : isQuaternionText (complexText p q) = false := by
    simp only [isQuaternionText, hcontains 'j' (by decide) (by decide), Bool.and_false,
      Bool.false_and]
  have hdigit : (ratText p ++ coefficientText q).any Text.isDigit = true := by
    have hdigits : ∀ c ∈ asciiDigits, Text.isDigit c = true := forall_mem_of_all (by decide)
    obtain ⟨minus, digit, rest, -, hdigit, -, hp⟩ := ratText_cons p
    rw [List.any_eq_true]
    refine ⟨digit, ?_, hdigits digit hdigit⟩
    simp [hp]
  have hcomplex : isComplexText (complexText p q) = true := by
    rw [isComplexText, hsplit]
    simp only [hcontains 'j' (by decide) (by decide), hcontains 'k' (by decide) (by decide), hdigit,
      Bool.not_false, Bool.and_self]
  have hempty : (complexText p q).isEmpty = false := by
    simp [complexText]
  rw [parseWithin, htrim, hempty, hquaternion, hcomplex]
  simp only [Bool.false_eq_true, if_false, if_true]
  rw [readComplex, hsplit]
  dsimp only
  rw [splitReal_text, readReal, parseWithin_ratText hp, readCoefficient_text hq]
  rfl

theorem parseWithin_quaternionText {p q r s : ℚ} (hp : Fits p) (hq : Fits q) (hr : Fits r)
    (hs : Fits s) (depth : Nat) : parseWithin (depth + 2) (quaternionText p q r s) =
      .ok (quaternion (ofRat p) (ofRat q) (ofRat r) (ofRat s)) := by
  have hall : ∀ c ∈ partChars, c ∈ "0123456789/+-ijk".toList := forall_mem_of_all (by decide)
  have hparts := parts_chars p q
  have hcoefficient := coefficientText_chars
  have htrim : Text.trim (quaternionText p q r s) = quaternionText p q r s := by
    refine trim_of_mem fun c hc => ?_
    simp only [quaternionText, List.mem_append, List.mem_cons, List.not_mem_nil, or_false] at hc
    obtain (hc | hc) | rfl | hc | rfl | hc | rfl := hc
    · exact hall c (ratText_chars p c hc)
    · exact hall c (hcoefficient q c hc)
    · decide
    · exact hall c (hcoefficient r c hc)
    · decide
    · exact hall c (hcoefficient s c hc)
    · decide
  have hquaternion : isQuaternionText (quaternionText p q r s) = true := by
    simp [isQuaternionText, quaternionText]
  have hempty : (quaternionText p q r s).isEmpty = false := by
    simp [quaternionText]
  rw [parseWithin, htrim, hempty, hquaternion]
  simp only [Bool.false_eq_true, if_false, if_true]
  rw [readQuaternion, quaternionText, splitFirst_append (not_mem_of_parts hparts (by decide))]
  dsimp only
  rw [splitFirst_append (not_mem_of_parts (hcoefficient r) (by decide))]
  dsimp only
  rw [splitFirst_append (not_mem_of_parts (hcoefficient s) (by decide))]
  dsimp only
  rw [splitReal_text, readReal, parseWithin_ratText hp, readCoefficient_text hq,
    readCoefficient_text hr, readCoefficient_text hs]
  rfl

/-- A complex number without an imaginary part as its real part, and any other number as it is. -/
def plain : Number → Number
  | complex re im => if im.isZero then re else complex re im
  | n => n

/-- How an exact number is written. -/
theorem text_eq_ok {n : Number} (hn : n.WellFormedExact) {t : String} (h : n.text = .ok t) :
    (∃ p, Fits p ∧ n.plain = ofRat p ∧ t.toList = ratText p) ∨
      (∃ p q, Fits p ∧ Fits q ∧ n.plain = complex (ofRat p) (ofRat q) ∧
        t.toList = complexText p q) ∨
      (∃ p q r s, Fits p ∧ Fits q ∧ Fits r ∧ Fits s ∧
        n.plain = quaternion (ofRat p) (ofRat q) (ofRat r) (ofRat s) ∧
        t.toList = quaternionText p q r s) := by
  obtain ⟨p, rfl⟩ | ⟨p, q, rfl⟩ | ⟨p, q, r, s, rfl⟩ := hn.eq_cases
  · obtain ⟨hfits, htext⟩ := text_ofRat h
    exact Or.inl ⟨p, hfits, rfl, htext⟩
  · refine Or.imp_right Or.inl ?_
    change textWithin 1 _ = _ at h
    rw [textWithin] at h
    rw [plain]
    by_cases hzero : (ofRat q).isZero = true
    · rw [if_pos hzero] at h ⊢
      obtain ⟨hfits, htext⟩ := text_ofRat h
      exact Or.inl ⟨p, hfits, rfl, htext⟩
    · rw [if_neg hzero] at h ⊢
      obtain ⟨real, hreal, h⟩ := bind_eq_ok h
      obtain ⟨term, hterm, h⟩ := bind_eq_ok h
      cases h
      rw [isZero_ofRat, decide_eq_true_eq] at hzero
      obtain ⟨hp, hrealText⟩ := text_ofRat hreal
      obtain ⟨hq, htermText⟩ := termText_ofRat (Or.inl hzero) hterm
      refine Or.inr ⟨p, q, hp, hq, rfl, ?_⟩
      rw [String.toList_append, hrealText, htermText, ← List.append_assoc]
      rfl
  · refine Or.inr (Or.inr ⟨p, q, r, s, ?_⟩)
    change textWithin 1 _ = _ at h
    rw [textWithin] at h
    obtain ⟨real, hreal, h⟩ := bind_eq_ok h
    obtain ⟨iTerm, hi, h⟩ := bind_eq_ok h
    obtain ⟨jTerm, hj, h⟩ := bind_eq_ok h
    obtain ⟨kTerm, hk, h⟩ := bind_eq_ok h
    cases h
    obtain ⟨hp, hrealText⟩ := text_ofRat hreal
    obtain ⟨hq, hiText⟩ := termText_ofRat (Or.inr rfl) hi
    obtain ⟨hr, hjText⟩ := termText_ofRat (Or.inr rfl) hj
    obtain ⟨hs, hkText⟩ := termText_ofRat (Or.inr rfl) hk
    refine ⟨hp, hq, hr, hs, rfl, ?_⟩
    rw [String.toList_append, String.toList_append, String.toList_append, hrealText, hiText, hjText,
      hkText, quaternionText]
    simp only [List.append_assoc]
    rfl

theorem parse_of_within {cs : List Char} (hcs : cs ≠ []) {n : Number}
    (h : ∀ depth, parseWithin (depth + 2) cs = .ok n) : parse cs = .ok n := by
  have hpos := List.length_pos_iff.mpr hcs
  obtain ⟨depth, hdepth⟩ : ∃ depth, cs.length = depth + 1 := ⟨cs.length - 1, by omega⟩
  rw [parse, hdepth]
  exact h depth

/-- The text of an exact number is read as that number. -/
theorem parse_text {n : Number} (hn : n.WellFormedExact) {t : String} (h : n.text = .ok t) :
    parse t.toList = .ok n.plain := by
  have hne : ∀ p, ratText p ≠ [] := by
    intro p hnil
    obtain ⟨minus, digit, rest, -, -, -, hp⟩ := ratText_cons p
    simp [hp] at hnil
  obtain ⟨p, hp, hplain, ht⟩ | ⟨p, q, hp, hq, hplain, ht⟩ |
    ⟨p, q, r, s, hp, hq, hr, hs, hplain, ht⟩ :=
    text_eq_ok hn h
  · rw [ht, hplain]
    exact parse_of_within (hne p) fun depth => parseWithin_ratText hp (depth + 1)
  · rw [ht, hplain]
    exact parse_of_within (by simp [complexText]) (parseWithin_complexText hp hq)
  · rw [ht, hplain]
    exact parse_of_within (by simp [quaternionText]) (parseWithin_quaternionText hp hq hr hs)

end TowerLisp.Number
