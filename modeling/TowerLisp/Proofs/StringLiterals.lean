import TowerLisp.Text.Quoted

/-!
String literals. The body of a literal ends at the first quote that no backslash
escapes, and what follows it does not matter. Reading the body of a printed string
gives the string back.
-/

namespace TowerLisp

theorem stringBody_quote (text : List Char) (n : Nat) (rest : List Char) :
    stringBody text n ('"' :: rest) = ⟨text.reverse, n + 1, true⟩ := by
  rw [stringBody] <;> simp

example : stringBody ['a'] 1 ['"', 'x'] = ⟨['a'], 2, true⟩ := by cbv

theorem stringBody_plain {c : Char} (hc : c ≠ '\\' ∧ c ≠ '"' ∧ c ≠ Cursor.endMark)
    (text : List Char) (n : Nat) (rest : List Char) :
    stringBody text n (c :: rest) = stringBody (c :: text) (n + 1) rest := by
  rw [stringBody] <;> simp [hc]

theorem stringBody_escaped {c : Char} (hc : c ≠ 'u') (text : List Char) (n : Nat)
    (rest : List Char) : stringBody text n ('\\' :: c :: rest) =
      stringBody ((if c = Cursor.endMark then '\\' else escapedChar c) :: text) (n + 2) rest := by
  rw [stringBody]
  intro a b c' d more hu
  exact absurd hu hc

/-- An escape for a code stands for its letter if four hexadecimal digits do not follow. -/
theorem stringBody_badCode {rest : List Char}
    (h : ∀ a b c d more, rest = a :: b :: c :: d :: more → hexChar? a b c d = none)
    (text : List Char) (n : Nat) :
    stringBody text n ('\\' :: 'u' :: rest) = stringBody ('u' :: text) (n + 2) rest := by
  by_cases hfour : ∃ a b c d more, rest = a :: b :: c :: d :: more
  · obtain ⟨a, b, c, d, more, rfl⟩ := hfour
    rw [stringBody, h a b c d more rfl]
  · rw [stringBody]
    · rfl
    · intro a b c d more hu hrest
      exact hfour ⟨a, b, c, d, more, hrest⟩

theorem hexChar?_quote {a b c d : Char} (h : '"' ∈ [a, b, c, d]) : hexChar? a b c d = none := by
  have hquote : hexValue? '"' = none := by decide
  simp only [List.mem_cons, List.not_mem_nil, or_false] at h
  obtain rfl | rfl | rfl | rfl := h
  · simp [hexChar?, hquote]
  · cases ha : hexValue? a <;> simp [hexChar?, hquote, ha]
  · cases ha : hexValue? a <;> cases hb : hexValue? b <;> simp [hexChar?, hquote, ha, hb]
  · cases ha : hexValue? a <;> cases hb : hexValue? b <;> cases hc : hexValue? c <;>
      simp [hexChar?, hquote, ha, hb, hc]

theorem exists_four {cs : List Char} (h : 4 ≤ cs.length) :
    ∃ a b c d more, cs = a :: b :: c :: d :: more := by
  match cs, h with
  | a :: b :: c :: d :: more, _ => exact ⟨a, b, c, d, more, rfl⟩

/-- The body of a literal lies in its text. -/
theorem stringBody_length_le (text : List Char) (n : Nat) (cs : List Char) :
    (stringBody text n cs).length ≤ n + cs.length := by
  fun_induction stringBody text n cs <;> simp_all only [List.length_cons, List.length_nil] <;> omega

theorem quote_mem_of_closed {text : List Char} {n : Nat} {cs : List Char}
    (h : (stringBody text n cs).closed = true) : '"' ∈ cs := by
  fun_induction stringBody text n cs <;> simp_all

/-- What follows the closing quote changes nothing. -/
theorem stringBody_append {text : List Char} {n : Nat} {cs : List Char} (rest : List Char)
    (h : (stringBody text n cs).closed = true) :
    stringBody text n (cs ++ rest) = stringBody text n cs := by
  fun_induction stringBody text n cs with
  | case1 => cases h
  | case2 => cases h
  | case3 text n a b c d others char hchar ih =>
    rw [← ih h]
    simp only [List.cons_append, stringBody, hchar]
  | case4 text n a b c d others hchar ih =>
    rw [← ih h]
    simp only [List.cons_append, stringBody, hchar]
  | case5 text n c others hshort ih =>
    rw [← ih h, List.cons_append, List.cons_append]
    by_cases hu : c = 'u'
    · subst hu
      refine stringBody_badCode ?_ _ _
      intro a b c d more heq
      have hquote := quote_mem_of_closed h
      refine hexChar?_quote ?_
      -- the quote that closes the string is among the four characters
      have hfour : others.length ≤ [a, b, c, d].length := by
        refine Nat.le_of_not_lt fun hlong => ?_
        obtain ⟨a', b', c', d', more', rfl⟩ := exists_four (Nat.le_of_lt hlong)
        exact hshort a' b' c' d' more' rfl rfl
      have htake : others = [a, b, c, d].take others.length := by
        calc others = (others ++ rest).take others.length := (List.take_left' rfl).symm
          _ = ([a, b, c, d] ++ more).take others.length := by rw [heq]; rfl
          _ = [a, b, c, d].take others.length := List.take_append_of_le_length hfour
      rw [htake] at hquote
      exact List.mem_of_mem_take hquote
    · exact stringBody_escaped hu _ _ _
  | case6 => exact stringBody_quote _ _ _
  | case7 => cases h
  | case8 text n c others hnil hcode hescape hquote hend ih =>
    rw [← ih h, List.cons_append]
    refine stringBody_plain ⟨?_, hquote, hend⟩ _ _ _
    rintro rfl
    cases others with
    | nil => exact hnil rfl rfl
    | cons d others => exact hescape d others rfl rfl

/-- A printed character is read as that character. -/
theorem stringBody_escapeChar {c : Char} (hc : c ≠ Cursor.endMark) (text : List Char) (n : Nat)
    (rest : List Char) : ∃ k, stringBody text n (Text.escapeChar c ++ rest) =
      stringBody (c :: text) (n + k) rest ∧ k = (Text.escapeChar c).length := by
  unfold Text.escapeChar
  split
  · exact ⟨2, stringBody_escaped (by decide) _ _ _, rfl⟩
  · exact ⟨2, stringBody_escaped (by decide) _ _ _, rfl⟩
  · exact ⟨2, stringBody_escaped (by decide) _ _ _, rfl⟩
  · exact ⟨2, stringBody_escaped (by decide) _ _ _, rfl⟩
  · exact ⟨2, stringBody_escaped (by decide) _ _ _, rfl⟩
  · exact ⟨1, stringBody_plain ⟨‹_›, ‹_›, hc⟩ _ _ _, rfl⟩

/-- The characters in front of the first end mark are read one after another. -/
theorem stringBody_escape_append {cs : List Char} (hcs : Cursor.endMark ∉ cs) (text : List Char)
    (n : Nat) (rest : List Char) : stringBody text n (Text.escape cs ++ rest) =
      stringBody (cs.reverse ++ text) (n + (Text.escape cs).length) rest := by
  induction cs generalizing text n with
  | nil => rfl
  | cons c cs ih =>
    rw [List.mem_cons, not_or] at hcs
    have hsplit : Text.escape (c :: cs) = Text.escapeChar c ++ Text.escape cs := rfl
    obtain ⟨k, hk, hlength⟩ := stringBody_escapeChar (Ne.symm hcs.1) text n (Text.escape cs ++ rest)
    rw [hsplit, List.append_assoc, hk, ih hcs.2, List.length_append, ← hlength, List.reverse_cons,
      List.append_assoc, List.singleton_append, Nat.add_assoc n]

/-- A printed string is read as that string, up to its closing quote. -/
theorem stringBody_escape {cs : List Char} (hcs : Cursor.endMark ∉ cs) (text : List Char) (n : Nat)
    (rest : List Char) : stringBody text n (Text.escape cs ++ '"' :: rest) =
      ⟨text.reverse ++ cs, n + (Text.escape cs).length + 1, true⟩ := by
  rw [stringBody_escape_append hcs, stringBody_quote, List.reverse_append, List.reverse_reverse]

end TowerLisp
