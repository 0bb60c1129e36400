import TowerLisp.Proofs.DecimalRounding
import TowerLisp.Proofs.WellFormedNumbers

/-!
Faults of number literals. A text that is no number is refused as one. Apart from that a literal is
at fault only if it holds a decimal literal whose value is beyond the largest decimal.
-/

namespace TowerLisp

namespace Precision

variable {p : Precision} {s : Bool} {c : ℕ} {e : ℤ}

/-- The largest number at a precision: all its digits are nines, at the largest exponent. -/
def largest (p : Precision) : ℚ :=
  (10 ^ p.digits - 1) * 10 ^ (p.maxExponent - (p.digits - 1 : ℕ))

/-- What lies at least one exponent higher is larger. -/
theorem largest_lt_of_exponent (hpos : 0 < c)
    (h : p.maxExponent < e + (Digits.count c - 1 : ℕ)) : p.largest < c * 10 ^ e := by
  have hten : (0 : ℚ) < 10 ^ (p.maxExponent - (p.digits - 1 : ℕ)) := zpow_pos (by norm_num) _
  have hdigits : ((10 ^ (Digits.count c - 1) : ℕ) : ℚ) ≤ c :=
    Nat.cast_le.mpr (Digits.pow_count_le hpos)
  calc p.largest < 10 ^ p.digits * 10 ^ (p.maxExponent - (p.digits - 1 : ℕ)) :=
        mul_lt_mul_of_pos_right (sub_one_lt _) hten
    _ = 10 ^ ((p.digits : ℤ) + (p.maxExponent - (p.digits - 1 : ℕ))) := by
        rw [zpow_add₀ (by norm_num), zpow_natCast]
    _ ≤ 10 ^ (((Digits.count c - 1 : ℕ) : ℤ) + e) := zpow_le_zpow_right₀ (by norm_num) (by omega)
    _ = ((10 ^ (Digits.count c - 1) : ℕ) : ℚ) * 10 ^ e := by
        rw [zpow_add₀ (by norm_num), zpow_natCast, Nat.cast_pow, Nat.cast_ofNat]
    _ ≤ c * 10 ^ e := mul_le_mul_of_nonneg_right hdigits (zpow_nonneg (by norm_num) _)

/-- What is rounded up to a power of ten is larger than all numbers of nines below it. -/
theorem lt_of_divNearest_eq {d k : ℕ} (hd : 0 < d) (h : Digits.divNearest c d = k) (hk : 0 < k) :
    (k - 1) * d < c := by
  by_contra hle
  rcases Nat.lt_or_eq_of_le (Nat.le_of_not_lt hle) with hlt | heq
  · have hbelow := Digits.divNearest_le hd hlt
    omega
  · have hexact := Digits.divNearest_of_dvd hd (Dvd.intro_left (k - 1) heq.symm)
    rw [heq, Nat.mul_div_cancel _ hd, ← heq, h] at hexact
    omega

/-- A number is refused only if it is larger. -/
theorem largest_lt_of_round {fault : Fault} (hdigits : 0 < p.digits)
    (h : p.round s c e = .error fault) : p.largest < |Decimal.denoted s c e| := by
  rw [Decimal.abs_denoted]
  unfold round at h
  dsimp only at h
  obtain ⟨-, h⟩ | ⟨hc, h⟩ := ite_eq_iff.mp h
  · cases h
  have hpos : 0 < c := Nat.pos_of_ne_zero hc
  obtain ⟨hlarge, -⟩ | ⟨hsmall, h⟩ := ite_eq_iff.mp h
  · exact largest_lt_of_exponent hpos hlarge
  obtain ⟨-, h⟩ | ⟨-, h⟩ := ite_eq_iff.mp h
  · split_ifs at h
  obtain ⟨-, h⟩ | ⟨hmany, h⟩ := ite_eq_iff.mp h
  · cases h
  obtain ⟨hrounded, h⟩ | ⟨-, h⟩ := ite_eq_iff.mp h
  · obtain ⟨hlarge, -⟩ | ⟨-, h⟩ := ite_eq_iff.mp h
    · -- the largest exponent, and a carry past all digits
      rw [Nat.pow_eq, Nat.pow_eq] at hrounded
      have hbeyond := lt_of_divNearest_eq (by positivity) hrounded (by positivity)
      have hexponent : p.maxExponent - (p.digits - 1 : ℕ) =
          ((Digits.count c - p.digits : ℕ) : ℤ) + e := by omega
      have hcast : ((10 ^ p.digits - 1 : ℚ)) * 10 ^ (Digits.count c - p.digits) < c := by
        have hone : 1 ≤ 10 ^ p.digits := Nat.one_le_pow _ _ (by norm_num)
        exact_mod_cast (Nat.cast_lt (α := ℚ)).mpr hbeyond
      rw [largest, hexponent, zpow_add₀ (by norm_num), zpow_natCast, ← mul_assoc]
      exact mul_lt_mul_of_pos_right hcast (zpow_pos (by norm_num) _)
    · cases h
  · cases h

end Precision

namespace Text

theorem dropWhile_isInfix (p : Char → Bool) (cs : List Char) : cs.dropWhile p <:+: cs :=
  (List.dropWhile_suffix p).isInfix

theorem trim_isInfix (cs : List Char) : trim cs <:+: cs := by
  have hback := List.reverse_infix.mpr (dropWhile_isInfix isBlank (cs.dropWhile isBlank).reverse)
  rw [List.reverse_reverse] at hback
  exact hback.trans (dropWhile_isInfix isBlank cs)

end Text

namespace Number

/-- A literal stands in a text, or in a piece of it two signs of which have been merged into one. -/
inductive Holds : List Char → List Char → Prop where
  | piece {text literal : List Char} : literal <:+: text → Holds text literal
  | merged {text piece literal : List Char} : piece <:+: text → Holds (mergeSigns piece) literal →
      Holds text literal

/-- A decimal literal whose value is beyond the largest decimal. -/
def TooLarge (literal : List Char) : Prop :=
  '.' ∈ literal ∧ ∃ d q, Decimal.parse? literal = some d ∧ d.toRat? = some q ∧
    Precision.wide.largest < |q|

/-- What may be wrong with a literal. -/
inductive Misread (text : List Char) : Fault → Prop where
  | literal (issue : LiteralIssue) : Misread text (.literal issue)
  | tooLarge {literal : List Char} : Holds text literal → TooLarge literal →
      Misread text (.breakdown .decimalOverflow)

/-- A computation on a text whose faults are those of literals in it. -/
def Misreads {α : Type} (text : List Char) (m : Except Fault α) : Prop :=
  ∀ fault, m = .error fault → Misread text fault

section Pieces

variable {α β : Type} {text piece : List Char} {fault : Fault}

theorem Holds.mem {literal : List Char} {c : Char} (h : Holds text literal) (hc : c ∈ literal) :
    c ∈ text := by
  induction h with
  | piece hin => exact hin.subset hc
  | merged hin _ ih => exact hin.subset ((mergeSigns_sublist _).subset (ih hc))

theorem Misread.of_isInfix (h : Misread piece fault) (hin : piece <:+: text) :
    Misread text fault := by
  cases h with
  | literal issue => exact .literal issue
  | tooLarge hholds hlarge =>
    refine .tooLarge ?_ hlarge
    cases hholds with
    | piece hpiece => exact .piece (hpiece.trans hin)
    | merged hpiece hrest => exact .merged (hpiece.trans hin) hrest

theorem Misread.of_merged (h : Misread (mergeSigns piece) fault) (hin : piece <:+: text) :
    Misread text fault := by
  cases h with
  | literal issue => exact .literal issue
  | tooLarge hholds hlarge => exact .tooLarge (.merged hin hholds) hlarge

/-- A text without a point holds no decimal literal. -/
theorem Misread.of_integer (h : Misread piece fault) (hpiece : '.' ∉ piece) (text : List Char) :
    Misread text fault := by
  cases h with
  | literal issue => exact .literal issue
  | tooLarge hholds hlarge => exact absurd (hholds.mem hlarge.1) hpiece

theorem misreads_ok (a : α) : Misreads text (.ok a) :=
  nofun

theorem misreads_literalFault (issue : String → LiteralIssue) (cs : List Char) :
    Misreads text (literalFault issue cs) := by
  rintro _ ⟨⟩
  exact .literal _

theorem Misreads.bind {m : Except Fault α} {f : α → Except Fault β} (hm : Misreads text m)
    (hf : ∀ a, Misreads text (f a)) : Misreads text (m >>= f) := by
  cases m with
  | ok a => exact hf a
  | error fault =>
    rintro _ ⟨⟩
    exact hm fault rfl

end Pieces

section Reading

variable {cs : List Char}

/-- The parts that a text is split into stand in it, but for a one that is left out. -/
theorem splitReal_isInfix (cs : List Char) :
    (∀ real, (splitReal cs).1 = some real → real <:+: cs) ∧
      ((splitReal cs).2 <:+: cs ∨ (splitReal cs).2 = ['+', '1']) := by
  unfold splitReal
  split
  · exact ⟨by rintro _ ⟨⟩, Or.inr rfl⟩
  · rename_i first rest
    split
    · exact ⟨by rintro _ ⟨⟩, Or.inl (List.infix_refl _)⟩
    · rename_i middle sign after hsplit
      obtain ⟨rfl, -⟩ := eq_of_splitLast hsplit
      refine ⟨fun real hreal => ?_, Or.inl (List.suffix_append (first :: middle) _).isInfix⟩
      dsimp only at hreal
      split at hreal
      · cases hreal
      · cases hreal
        exact (List.prefix_append (first :: middle) _).isInfix

theorem readInteger_misreads : Misreads cs (readInteger cs) := by
  unfold readInteger
  split
  · exact misreads_ok _
  · exact misreads_literalFault _ _

theorem readRational_misreads : Misreads cs (readRational cs) := by
  unfold readRational
  split
  · exact misreads_literalFault _ _
  · split
    · rename_i p q _ _
      split
      · exact misreads_literalFault _ _
      · rw [fraction, if_neg ‹_›]
        exact misreads_ok _
    · exact misreads_literalFault _ _

/-- A decimal literal is at fault if its value is too large. -/
theorem ofDecimal_misreads {d : Decimal} (hpoint : '.' ∈ cs) (hd : Decimal.parse? cs = some d) :
    Misreads cs (ofDecimal d) := by
  refine .bind ?_ fun _ => misreads_ok _
  intro fault h
  cases d with
  | finite s c e =>
    obtain rfl := Precision.eq_overflow_of_round h
    have hlarge := Precision.largest_lt_of_round (by decide) h
    rw [Decimal.abs_denoted, ← Decimal.abs_denoted s] at hlarge
    exact .tooLarge (.piece (List.infix_refl _))
      ⟨hpoint, _, _, hd, Decimal.toRat?_finite s c e, hlarge⟩
  | infinite s => cases h
  | nan m => cases h

theorem readDecimal_misreads (hpoint : '.' ∈ cs) : Misreads cs (readDecimal cs) := by
  unfold readDecimal
  split
  · exact misreads_literalFault _ _
  · split
    · exact misreads_ok _
    · split
      · exact misreads_literalFault _ _
      · exact ofDecimal_misreads hpoint ‹_›

variable {read : List Char → Except Fault Number} (h : ∀ cs, Misreads cs (read cs))

include h

theorem readReal_misreads {real : Option (List Char)}
    (hreal : ∀ part, real = some part → part <:+: cs) : Misreads cs (readReal read real) := by
  cases real with
  | none => exact misreads_ok _
  | some part => exact fun fault hfault => (h part fault hfault).of_isInfix (hreal part rfl)

theorem readCoefficient_misreads {part : List Char} (hpart : part <:+: cs ∨ part = ['+', '1']) :
    Misreads cs (readCoefficient read part) := by
  unfold readCoefficient
  split
  · exact misreads_ok _
  · dsimp only
    split
    · exact misreads_ok _
    · intro fault hfault
      rcases hpart with hin | rfl
      · exact (h _ fault hfault).of_merged hin
      · exact (h _ fault hfault).of_integer (by decide) cs

theorem readComplex_misreads : Misreads cs (readComplex read cs) := by
  unfold readComplex
  split
  · rename_i before _ hsplit
    obtain ⟨rfl, -⟩ := eq_of_splitLast hsplit
    have hbefore {rest : List Char} : before <:+: before ++ rest :=
      (List.prefix_append before rest).isInfix
    obtain ⟨hreal, himaginary⟩ := splitReal_isInfix before
    refine .bind (readReal_misreads h fun part hpart => ?_) fun _ => ?_
    · exact (hreal part hpart).trans hbefore
    refine .bind (readCoefficient_misreads h ?_) fun _ => misreads_ok _
    exact himaginary.imp_left (·.trans hbefore)
  · exact misreads_literalFault _ _

theorem readQuaternion_misreads : Misreads cs (readQuaternion read cs) := by
  unfold readQuaternion
  split
  · exact misreads_literalFault _ _
  rename_i beforeI afterI hi
  split
  · exact misreads_literalFault _ _
  rename_i beforeJ afterJ hj
  split
  · exact misreads_literalFault _ _
  · exact misreads_literalFault _ _
  rename_i beforeK hk
  obtain ⟨rfl, -⟩ := eq_of_splitFirst hi
  obtain ⟨rfl, -⟩ := eq_of_splitFirst hj
  obtain ⟨rfl, -⟩ := eq_of_splitFirst hk
  have hbeforeI {rest : List Char} : beforeI <:+: beforeI ++ rest :=
    (List.prefix_append beforeI rest).isInfix
  have hbeforeJ {rest : List Char} : beforeJ <:+: beforeI ++ 'i' :: (beforeJ ++ rest) :=
    ⟨beforeI ++ ['i'], rest, by simp⟩
  have hbeforeK : beforeK <:+: beforeI ++ 'i' :: (beforeJ ++ 'j' :: (beforeK ++ ['k'])) :=
    ⟨beforeI ++ 'i' :: beforeJ ++ ['j'], ['k'], by simp⟩
  obtain ⟨hreal, hi'⟩ := splitReal_isInfix beforeI
  refine .bind (readReal_misreads h fun part hpart => (hreal part hpart).trans hbeforeI) fun _ => ?_
  refine .bind (readCoefficient_misreads h (hi'.imp_left (·.trans hbeforeI))) fun _ => ?_
  refine .bind (readCoefficient_misreads h (Or.inl hbeforeJ)) fun _ => ?_
  exact .bind (readCoefficient_misreads h (Or.inl hbeforeK)) fun _ => misreads_ok _

omit h

theorem parseWithin_misreads (depth : Nat) (cs : List Char) :
    Misreads cs (parseWithin depth cs) := by
  induction depth generalizing cs with
  | zero =>
    rintro _ ⟨⟩
    exact .literal _
  | succ depth ih =>
    intro fault hfault
    refine Misread.of_isInfix ?_ (Text.trim_isInfix cs)
    unfold parseWithin at hfault
    dsimp only at hfault
    split at hfault
    · cases hfault
      exact .literal _
    split at hfault
    · exact readQuaternion_misreads ih fault hfault
    split at hfault
    · exact readComplex_misreads ih fault hfault
    split at hfault
    · exact readRational_misreads fault hfault
    split at hfault
    · exact readDecimal_misreads (List.contains_iff_mem.mp ‹_›) fault hfault
    · exact readInteger_misreads fault hfault

end Reading

/-- What goes wrong with a number is that it is none, or that it holds a decimal literal whose value
is too large. -/
theorem misread_of_parse {cs : List Char} {fault : Fault} (h : parse cs = .error fault) :
    Misread cs fault :=
  parseWithin_misreads _ cs fault h

end Number

end TowerLisp
