import Mathlib.Algebra.Group.Nat.Defs
import TowerLisp.Text.Numeral

/-!
Integers as rows of digits. The digits of an integer, with or without a sign, are
read as that integer if there are not too many of them.
-/

namespace TowerLisp.Text

/-- A check of each character of a list. Deciding the statement itself may go through all
characters there are. -/
theorem forall_mem_of_all {cs : List Char} {p : Char → Prop} [DecidablePred p]
    (h : (cs.all fun c => decide (p c)) = true) : ∀ c ∈ cs, p c :=
  fun c hc => of_decide_eq_true (List.all_eq_true.mp h c hc)

def asciiDigits : List Char :=
  "0123456789".toList

theorem toDigits_ascii {n : Nat} : ∀ c ∈ Nat.toDigits 10 n, c ∈ asciiDigits := by
  intro c hc
  have hdigit : c.isDigit = true := Nat.isDigit_of_mem_toDigits (by decide) (by decide) hc
  rw [Char.isDigit_iff_toNat] at hdigit
  change 48 ≤ c.toNat ∧ c.toNat ≤ 57 at hdigit
  obtain ⟨k, hk, rfl⟩ : ∃ k < 10, c = Nat.digitChar k := by
    refine ⟨c.toNat - 48, by omega, Char.toNat_inj.mp ?_⟩
    rw [Nat.toNat_digitChar_of_lt_ten (by omega)]
    omega
  have hall : ∀ k < 10, Nat.digitChar k ∈ asciiDigits := by decide
  exact hall k hk

theorem digitValue?_ascii {c : Char} (hc : c ∈ asciiDigits) :
    digitValue? c = some (c.toNat - '0'.toNat) := by
  have hall : ∀ c ∈ asciiDigits, digitValue? c = some (c.toNat - '0'.toNat) :=
    forall_mem_of_all (by decide)
  exact hall c hc

/-- A row of digits is taken as a whole. -/
theorem takeDigits_ascii {cs : List Char} (hcs : ∀ c ∈ cs, c ∈ asciiDigits) :
    Numeral.takeDigits cs = (cs.map fun c => c.toNat - '0'.toNat, []) := by
  induction cs with
  | nil => rfl
  | cons c cs ih =>
    rw [List.forall_mem_cons] at hcs
    rw [Numeral.takeDigits, digitValue?_ascii hcs.1, ih hcs.2]
    rfl

theorem ofDigits_toDigits (n : Nat) :
    Numeral.ofDigits ((Nat.toDigits 10 n).map fun c => c.toNat - '0'.toNat) = n := by
  rw [Numeral.ofDigits, List.foldl_map]
  exact Nat.ofDigitChars_ten_toDigits

theorem dropUnderscores_eq {afterDigit : Bool} {cs : List Char} (hcs : '_' ∉ cs) :
    Numeral.dropUnderscores afterDigit cs = some cs := by
  induction cs generalizing afterDigit with
  | nil => rfl
  | cons c cs ih =>
    rw [List.mem_cons, not_or] at hcs
    rw [Numeral.dropUnderscores.eq_def]
    dsimp only
    rw [if_neg (Ne.symm hcs.1), ih hcs.2]
    rfl

theorem dropWhile_eq {p : Char → Bool} {cs : List Char} (hcs : ∀ c ∈ cs, p c = false) :
    cs.dropWhile p = cs := by
  cases cs with
  | nil => rfl
  | cons c cs => rw [List.dropWhile_cons_of_neg (by simp [hcs c List.mem_cons_self])]

theorem trimWhile_eq {p : Char → Bool} {cs : List Char} (hcs : ∀ c ∈ cs, p c = false) :
    trimWhile p cs = cs := by
  have hreverse : ∀ c ∈ cs.reverse, p c = false := fun c hc => hcs c (List.mem_reverse.mp hc)
  rw [trimWhile, dropWhile_eq hcs, dropWhile_eq hreverse, List.reverse_reverse]

/-- The value of a sign. -/
def signed (sign : List Char) (n : Nat) : Int :=
  if sign = ['-'] then -n else n

/-- Digits with a sign are read as an integer. -/
theorem integer?_digits {sign : List Char} (hsign : sign = [] ∨ sign = ['+'] ∨ sign = ['-'])
    {n : Nat} (hn : n < 10 ^ Digits.textLimit) :
    integer? (sign ++ Nat.toDigits 10 n) = some (signed sign n) := by
  have hdigits : ∀ c ∈ Nat.toDigits 10 n, c ∈ asciiDigits := toDigits_ascii
  have hplain : ∀ c ∈ asciiDigits, isNumeralBlank c = false ∧ c ≠ '_' ∧ c ≠ '+' ∧ c ≠ '-' :=
    forall_mem_of_all (by decide)
  have hblank : ∀ c ∈ sign ++ Nat.toDigits 10 n, isNumeralBlank c = false := by
    intro c hc
    rw [List.mem_append] at hc
    obtain hc | hc := hc
    · obtain rfl | rfl | rfl := hsign
      · cases hc
      · rw [List.mem_singleton.mp hc]
        decide
      · rw [List.mem_singleton.mp hc]
        decide
    · exact (hplain c (hdigits c hc)).1
  have hsplit : Numeral.takeSign (sign ++ Nat.toDigits 10 n) =
      (decide (sign = ['-']), Nat.toDigits 10 n) := by
    obtain rfl | rfl | rfl := hsign
    · obtain ⟨c, cs, hcs⟩ :=
        List.exists_cons_of_ne_nil (Nat.toDigits_ne_nil : Nat.toDigits 10 n ≠ [])
      have hc := (hplain c (hdigits c (by rw [hcs]; exact List.mem_cons_self))).2.2
      rw [hcs, List.nil_append, Numeral.takeSign]
      · rfl
      · rintro rest h
        exact hc.2 (List.cons.inj h).1
      · rintro rest h
        exact hc.1 (List.cons.inj h).1
    · rfl
    · rfl
  have hunderscore : '_' ∉ Nat.toDigits 10 n := fun hc => (hplain _ (hdigits _ hc)).2.1 rfl
  have hlength : ¬ Digits.textLimit < (Nat.toDigits 10 n).length :=
    Nat.not_lt.mpr ((Nat.length_toDigits_le_iff (by decide) (by decide)).mpr hn)
  have hvalue := ofDigits_toDigits n
  rw [integer?, trimWhile_eq hblank, hsplit]
  simp only [dropUnderscores_eq hunderscore, Option.bind_eq_bind, Option.bind_some,
    takeDigits_ascii hdigits]
  split
  · rename_i hnil
    exact absurd (List.map_eq_nil_iff.mp (Prod.mk.inj hnil).1) Nat.toDigits_ne_nil
  · rename_i hnil
    cases (Prod.mk.inj hnil).2
  · rename_i digits hdigits
    obtain ⟨rfl, -⟩ := Prod.mk.inj hdigits
    rw [List.length_map, if_neg hlength, hvalue]
    simp [signed]

/-- The digits of an integer behind its sign. -/
theorem toList_repr (n : Int) :
    n.repr.toList = (if n < 0 then ['-'] else []) ++ Nat.toDigits 10 n.natAbs := by
  rw [Int.repr_eq_if]
  split
  · rename_i hn
    rw [if_neg (Int.not_lt.mpr hn), Nat.toList_repr]
    congr 1
    omega
  · rename_i hn
    rw [if_pos (Int.not_le.mp hn), String.toList_append, Nat.toList_repr]
    congr 1
    congr 1
    omega

end TowerLisp.Text
