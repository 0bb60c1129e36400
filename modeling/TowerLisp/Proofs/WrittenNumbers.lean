import TowerLisp.Proofs.NumberTokens

/-!
Written numbers. An exact number has a text exactly if its integers are short enough to be
written. That text is a single numeric token, and the token is read as the number that was
written; only a complex number without an imaginary part comes back as its real part.
-/

namespace TowerLisp

namespace Number

theorem integerText_of_lt {n : ℤ} (h : n.natAbs < 10 ^ Digits.textLimit) :
    integerText n = .ok n.repr := by
  rw [integerText, if_pos ((writable_iff n).mpr h)]

/-- A rational number of short integers has a text. -/
theorem exists_text_ofRat {q : ℚ} (hq : Fits q) : ∃ t, (Scalar.ofRat q).text = .ok t := by
  obtain ⟨hnum, hden⟩ := hq
  obtain ⟨n, rfl, -, hform⟩ | ⟨n, rfl, -, hform⟩ | ⟨-, hform⟩ := Scalar.ofRat_cases q
  · exact ⟨_, by rw [hform]; exact integerText_of_lt hnum⟩
  · exact ⟨_, by rw [hform]; exact integerText_of_lt hnum⟩
  · rw [hform, Scalar.text, integerText_of_lt hnum, integerText_of_lt (n := q.den) hden]
    exact ⟨_, rfl⟩

theorem textWithin_ofRat (height : Nat) (q : ℚ) :
    textWithin height (ofRat q) = (Scalar.ofRat q).text := by
  rw [ofRat, textWithin]

theorem Fits.abs {q : ℚ} (h : Fits q) : Fits |q| := by
  rwa [Fits, Rat.num_abs_eq_abs_num, Rat.den_abs_eq_den, Int.natAbs_abs]

theorem fits_zero : Fits 0 :=
  ⟨Nat.pow_pos (by decide), one_fits⟩

/-- A component of short integers has a term. -/
theorem exists_termText_ofRat {q : ℚ} (hq : Fits q) (unit : String) (showZero : Bool) :
    ∃ t, termText (textWithin 0) (ofRat q) unit showZero = .ok t := by
  obtain ⟨magnitude, hmagnitude⟩ := exists_text_ofRat hq.abs
  have hsigned : ∀ sign : String, ∃ t,
      ((ofRat |q|).equal one >>= fun isOne =>
        if isOne = true then pure (sign ++ unit)
        else textWithin 0 (ofRat |q|) >>= fun magnitude => pure (sign ++ magnitude ++ unit)) =
          Except.ok t := by
    intro sign
    rw [equal_one, ok_bind]
    split
    · exact ⟨_, rfl⟩
    · rw [textWithin_ofRat, hmagnitude]
      exact ⟨_, rfl⟩
  rw [termText, isZero_ofRat]
  by_cases hzero : q = 0
  · rw [if_pos (decide_eq_true hzero)]
    exact ⟨_, rfl⟩
  rw [if_neg (by simpa using hzero), gt_zeroLike, ok_bind]
  by_cases hpos : 0 < q
  · rw [decide_eq_true hpos, if_pos rfl, ← abs_of_pos hpos]
    exact hsigned "+"
  · rw [decide_eq_false hpos, if_neg Bool.false_ne_true, neg_ofRat,
      ← abs_of_nonpos (not_lt.mp hpos)]
    exact hsigned "-"

/-- The integers in a number, which are those of its components, are short enough to be
written. -/
def IsWritable (n : Number) : Prop :=
  ∀ c ∈ n.components, Fits c.exactValue.re

@[simp] theorem isWritable_ofRat (p : ℚ) : (ofRat p).IsWritable ↔ Fits p := by
  simp [IsWritable]

@[simp] theorem isWritable_complex (p q : ℚ) :
    (complex (ofRat p) (ofRat q)).IsWritable ↔ Fits p ∧ Fits q := by
  simp [IsWritable]

@[simp] theorem isWritable_quaternion (p q r s : ℚ) :
    (quaternion (ofRat p) (ofRat q) (ofRat r) (ofRat s)).IsWritable ↔
      Fits p ∧ Fits q ∧ Fits r ∧ Fits s := by
  simp [IsWritable]

/-- An exact number of short integers has a text. -/
theorem IsWritable.exists_text {n : Number} (hn : n.WellFormedExact) (h : n.IsWritable) :
    ∃ t, n.text = .ok t := by
  obtain ⟨p, rfl⟩ | ⟨p, q, rfl⟩ | ⟨p, q, r, s, rfl⟩ := hn.eq_cases
  · exact exists_text_ofRat ((isWritable_ofRat p).mp h)
  · obtain ⟨hp, hq⟩ := (isWritable_complex p q).mp h
    obtain ⟨real, hreal⟩ := exists_text_ofRat hp
    obtain ⟨term, hterm⟩ := exists_termText_ofRat hq "i" false
    change ∃ t, textWithin 1 _ = _
    rw [textWithin, textWithin_ofRat, hreal, hterm]
    split
    · exact ⟨_, rfl⟩
    · exact ⟨_, rfl⟩
  · obtain ⟨hp, hq, hr, hs⟩ := (isWritable_quaternion p q r s).mp h
    obtain ⟨real, hreal⟩ := exists_text_ofRat hp
    obtain ⟨iTerm, hi⟩ := exists_termText_ofRat hq "i" true
    obtain ⟨jTerm, hj⟩ := exists_termText_ofRat hr "j" true
    obtain ⟨kTerm, hk⟩ := exists_termText_ofRat hs "k" true
    change ∃ t, textWithin 1 _ = _
    rw [textWithin, textWithin_ofRat, hreal, hi, hj, hk]
    exact ⟨_, rfl⟩

/-- All that a number has beyond its plain form is a zero. -/
theorem isWritable_of_plain {n : Number} (hn : n.WellFormedExact) (h : n.plain.IsWritable) :
    n.IsWritable := by
  obtain ⟨p, rfl⟩ | ⟨p, q, rfl⟩ | ⟨p, q, r, s, rfl⟩ := hn.eq_cases
  · exact h
  · rw [plain] at h
    split at h
    · rename_i hzero
      rw [isZero_ofRat, decide_eq_true_eq] at hzero
      rw [isWritable_complex, hzero]
      exact ⟨(isWritable_ofRat p).mp h, fits_zero⟩
    · exact h
  · exact h

/-- The text of an exact number shows all of its integers. -/
theorem isWritable_of_text {n : Number} (hn : n.WellFormedExact) {t : String}
    (h : n.text = .ok t) : n.IsWritable := by
  apply isWritable_of_plain hn
  obtain ⟨p, hp, hplain, -⟩ | ⟨p, q, hp, hq, hplain, -⟩ |
    ⟨p, q, r, s, hp, hq, hr, hs, hplain, -⟩ := text_eq_ok hn h
  · rw [hplain]
    exact (isWritable_ofRat p).mpr hp
  · rw [hplain]
    exact (isWritable_complex p q).mpr ⟨hp, hq⟩
  · rw [hplain]
    exact (isWritable_quaternion p q r s).mpr ⟨hp, hq, hr, hs⟩

end Number

/-- A text that lexes as one token is that token and nothing else. -/
theorem Lexes.ofSource_eq {text : List Char} {tag : Tag} {payload : Payload}
    (h : Lexes text [] [(tag, payload)]) :
    ∃ place eofPlace, Tokens.ofSource text =
      .more ⟨tag, payload, place⟩ (.done ⟨.eof, .text "EOF", eofPlace⟩) := by
  obtain ⟨front, after, hfront, hsaid, hafter⟩ := h (.start text) (List.append_nil text).symm
  obtain ⟨token, rfl, htoken⟩ := List.map_eq_singleton_iff.mp hsaid
  obtain ⟨htag, hpayload⟩ := Prod.mk.inj htoken
  refine ⟨token.place, some after.place, ?_⟩
  rw [Tokens.ofSource, hfront, Tokens.ofCursor_end hafter, ← htag, ← hpayload]
  rfl

namespace Number

/-- An exact number of short integers, and no other, has a text; the text is one numeric token
that is read as the number. -/
theorem written_number_read_back {n : Number} (hn : n.WellFormedExact) :
    ((∃ t, n.text = .ok t) ↔ n.IsWritable) ∧
      ∀ t, n.text = .ok t →
        (∃ place eofPlace, Tokens.ofSource t.toList =
          .more ⟨.number, .text t, place⟩ (.done ⟨.eof, .text "EOF", eofPlace⟩)) ∧
        parse t.toList = .ok n.plain := by
  refine ⟨⟨fun ⟨t, ht⟩ => isWritable_of_text hn ht, fun h => h.exists_text hn⟩, fun t ht => ?_⟩
  exact ⟨(lexes_text hn ht stops_nil).ofSource_eq, parse_text hn ht⟩

/-- A quaternion with a fraction, a zero, a unit and an integer past the word. -/
theorem written_number_read_back_units :
    let n := quaternion (scalar (.rational (-1 / 2))) (scalar (.int 0)) (scalar (.int (-1)))
      (scalar (.bigint (2 ^ 63)))
    n.WellFormedExact ∧ n.text = .ok "-1/2+0i-j+9223372036854775808k" ∧
      parse "-1/2+0i-j+9223372036854775808k".toList = .ok n := by
  intro n
  have hn : n.WellFormedExact := ⟨by decide +kernel, by decide, by decide, by decide⟩
  have ht : n.text = .ok "-1/2+0i-j+9223372036854775808k" := by decide +kernel
  exact ⟨hn, ht, ((written_number_read_back hn).2 _ ht).2⟩

end Number

end TowerLisp
