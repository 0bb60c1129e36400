import TowerLisp.Proofs.Lexing
import TowerLisp.Proofs.NumberText

/-!
Numbers as tokens. The text of an exact number is one numeric token, which stands for
a number of the same value.
-/

namespace TowerLisp

open Text (asciiDigits forall_mem_of_all)

/-- The characters of the text of an exact number. -/
def exactChars : List Char :=
  "0123456789+-/ijk".toList

/-- A digit in front of characters of a number starts a number. -/
theorem scanHere_number {c : Cursor} {text rest : List Char} {first : Char}
    (hc : c.ahead = first :: (text ++ rest))
    (hfirst : (Text.isDigit first || ((first = '+' || first = '-') && Text.isDigit c.next)) = true)
    (hend : first ≠ Cursor.endMark) (htext : ∀ char ∈ text, char ∈ exactChars)
    (hrest : Stops rest) :
    ∃ after, c.scanHere =
        (.ok ⟨.number, .text (String.ofList (first :: text)), some c.place⟩, after) ∧
      after.ahead = rest := by
  have hchars : ∀ char ∈ exactChars, isNumberChar char = true := forall_mem_of_all (by decide)
  have htaken : (text ++ rest).takeWhile isNumberChar = text := by
    rw [hrest.takeWhile_append fun _ => IsStop.isNumberChar]
    exact List.takeWhile_eq_self_iff.mpr fun char hchar => hchars char (htext char hchar)
  have hadvance : c.advance.takeWhile isNumberChar = (text, c.advance.skip text.length) := by
    rw [Cursor.takeWhile, advance_of_ahead hc, htaken]
  refine ⟨c.advance.skip text.length, ?_, ?_⟩
  · unfold Cursor.scanHere
    dsimp only
    rw [current_of_ahead hc, if_neg hend, if_pos hfirst, Cursor.scanNumber, hadvance,
      current_of_ahead hc]
    rfl
  · rw [Cursor.ahead_skip, advance_of_ahead hc, List.drop_left]

/-- A row of characters of a number that starts with a digit, or with a minus sign and a
digit, is one token. -/
theorem lexes_number {sign text : List Char} {digit : Char} (hsign : sign = [] ∨ sign = ['-'])
    (hdigit : digit ∈ asciiDigits) (htext : ∀ c ∈ text, c ∈ exactChars) {rest : List Char}
    (hrest : Stops rest) :
    Lexes (sign ++ digit :: text) rest
      [(.number, .text (String.ofList (sign ++ digit :: text)))] := by
  have hdigits : ∀ c ∈ asciiDigits, Text.isDigit c = true ∧ Text.isBlank c = false ∧ c ≠ ';' ∧
      c ≠ Cursor.endMark ∧ c ∈ exactChars := forall_mem_of_all (by decide)
  obtain ⟨hisDigit, hblank, hmark, hend, hchar⟩ := hdigits digit hdigit
  refine lexes_token (by decide) fun c hc => ?_
  obtain rfl | rfl := hsign
  · obtain ⟨after, hscan, hafter⟩ := scanHere_number hc (by rw [hisDigit]; rfl) hend htext hrest
    refine ⟨some c.place, after, ?_, hafter⟩
    rw [Cursor.scan, Cursor.skipTrivia_of_start hc hblank hmark, hscan]
    rfl
  · have hnext : c.next = digit := by
      rw [Cursor.next, hc]
      rfl
    obtain ⟨after, hscan, hafter⟩ := scanHere_number hc (by rw [hnext, hisDigit]; rfl) (by decide)
      (List.forall_mem_cons.mpr ⟨hchar, htext⟩) hrest
    refine ⟨some c.place, after, ?_, hafter⟩
    rw [Cursor.scan, Cursor.skipTrivia_of_start hc (by decide) (by decide), hscan]
    rfl

namespace Number

theorem text_cons {n : Number} (hn : n.WellFormedExact) {t : String} (h : n.text = .ok t) :
    ∃ sign digit rest, (sign = [] ∨ sign = ['-']) ∧ digit ∈ asciiDigits ∧
      (∀ c ∈ rest, c ∈ exactChars) ∧ t.toList = sign ++ digit :: rest := by
  have hmagnitude : ∀ c ∈ magnitudeChars, c ∈ exactChars := forall_mem_of_all (by decide)
  have hpart : ∀ c ∈ partChars, c ∈ exactChars := forall_mem_of_all (by decide)
  have hcoefficient : ∀ q, ∀ c ∈ coefficientText q, c ∈ exactChars :=
    fun q c hc => hpart c (coefficientText_chars q c hc)
  obtain ⟨p, -, -, ht⟩ | ⟨p, q, -, -, -, ht⟩ | ⟨p, q, r, s, -, -, -, -, -, ht⟩ := text_eq_ok hn h
  · obtain ⟨sign, digit, rest, hsign, hdigit, hrest, hp⟩ := ratText_cons p
    exact ⟨sign, digit, rest, hsign, hdigit, fun c hc => hmagnitude c (hrest c hc), ht.trans hp⟩
  · obtain ⟨sign, digit, rest, hsign, hdigit, hrest, hp⟩ := ratText_cons p
    refine ⟨sign, digit, rest ++ (coefficientText q ++ ['i']), hsign, hdigit, ?_, ?_⟩
    · simp only [List.mem_append, List.mem_singleton]
      rintro c (hc | hc | rfl)
      · exact hmagnitude c (hrest c hc)
      · exact hcoefficient q c hc
      · decide
    · rw [ht, complexText, hp]
      simp
  · obtain ⟨sign, digit, rest, hsign, hdigit, hrest, hp⟩ := ratText_cons p
    refine ⟨sign, digit, rest ++ (coefficientText q ++ 'i' :: (coefficientText r ++ 'j' ::
      (coefficientText s ++ ['k']))), hsign, hdigit, ?_, ?_⟩
    · simp only [List.mem_append, List.mem_cons, List.not_mem_nil, or_false]
      rintro c (hc | hc | rfl | hc | rfl | hc | rfl)
      · exact hmagnitude c (hrest c hc)
      · exact hcoefficient q c hc
      · decide
      · exact hcoefficient r c hc
      · decide
      · exact hcoefficient s c hc
      · decide
    · rw [ht, quaternionText, hp]
      simp

/-- The text of an exact number is one token. -/
theorem lexes_text {n : Number} (hn : n.WellFormedExact) {t : String} (h : n.text = .ok t)
    {rest : List Char} (hrest : Stops rest) : Lexes t.toList rest [(.number, .text t)] := by
  obtain ⟨sign, digit, others, hsign, hdigit, hothers, ht⟩ := text_cons hn h
  have htext : t = String.ofList (sign ++ digit :: others) := by
    rw [← ht, String.ofList_toList]
  rw [ht, htext]
  exact lexes_number hsign hdigit hothers hrest

/-- A number that is read back has the value of the number that was written. -/
theorem plain_equal {n : Number} (hn : n.WellFormedExact) : n.plain.equal n = .ok true := by
  obtain ⟨hplain, hvalue⟩ : n.plain.WellFormedExact ∧ n.plain.exactValue = n.exactValue := by
    obtain ⟨p, rfl⟩ | ⟨p, q, rfl⟩ | ⟨p, q, r, s, rfl⟩ := hn.eq_cases
    · exact ⟨hn, rfl⟩
    · rw [plain]
      split
      · rename_i hzero
        rw [isZero_ofRat, decide_eq_true_eq] at hzero
        refine ⟨Scalar.wellFormedExact_ofRat p, ?_⟩
        rw [exactValue_ofRat, exactValue_complex, hzero]
      · exact ⟨hn, rfl⟩
    · exact ⟨hn, rfl⟩
  obtain ⟨answer, hanswer, hiff⟩ := equal_eq hplain hn
  rw [hanswer, hiff.mpr hvalue]

end Number

end TowerLisp
