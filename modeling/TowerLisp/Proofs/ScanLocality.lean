import TowerLisp.Proofs.Scanning
import TowerLisp.Proofs.StringLiterals

/-!
Scanning looks no further than the character behind a token. A token is scanned in
the same way wherever it stands in a text, if a blank, a line end or a closing
parenthesis follows it.
-/

namespace TowerLisp

/-- Characters that end any token that is not in quotes. -/
def IsStop (c : Char) : Prop :=
  c = ' ' ∨ c = '\n' ∨ c = ')'

/-- What follows a token: nothing, or a character that ends it. -/
def Stops (rest : List Char) : Prop :=
  ∀ c ∈ rest.head?, IsStop c

theorem stops_nil : Stops [] :=
  nofun

theorem stops_cons {c : Char} (h : IsStop c) (rest : List Char) : Stops (c :: rest) := by
  intro d hd
  cases hd
  exact h

theorem stops_blank (rest : List Char) : Stops (' ' :: rest) :=
  stops_cons (Or.inl rfl) rest

theorem stops_close (rest : List Char) : Stops (')' :: rest) :=
  stops_cons (Or.inr (Or.inr rfl)) rest

namespace IsStop

variable {c : Char} (h : IsStop c)

include h

theorem isLabelChar : isLabelChar c = false := by
  obtain rfl | rfl | rfl := h <;> decide

theorem isNumberChar : isNumberChar c = false := by
  obtain rfl | rfl | rfl := h <;> decide

theorem isLetter : Text.isLetter c = false := by
  obtain rfl | rfl | rfl := h <;> decide

theorem isDigit : Text.isDigit c = false := by
  obtain rfl | rfl | rfl := h <;> decide

theorem isDelimiter : isDelimiter c = true := by
  obtain rfl | rfl | rfl := h <;> decide

end IsStop

theorem Stops.takeWhile_append {rest : List Char} (hrest : Stops rest) {p : Char → Bool}
    (hp : ∀ c, IsStop c → p c = false) (text : List Char) :
    (text ++ rest).takeWhile p = text.takeWhile p := by
  induction text with
  | nil =>
    cases rest with
    | nil => rfl
    | cons c rest => simp [hp c (hrest c rfl)]
  | cons c text ih => simp [List.takeWhile_cons, ih]

namespace Cursor

/-- The cursor `d` is before the same text as `c`, with more behind it. -/
structure Extends (d c : Cursor) (rest : List Char) : Prop where
  ahead : d.ahead = c.ahead ++ rest
  stops : Stops rest

namespace Extends

variable {c d : Cursor} {rest : List Char} (h : Extends d c rest)

include h

theorem current (hc : c.ahead ≠ []) : d.current = c.current := by
  obtain ⟨char, others, hahead⟩ := List.exists_cons_of_ne_nil hc
  rw [Cursor.current, Cursor.current, h.ahead, hahead]
  rfl

theorem advance (hc : c.ahead ≠ []) : Extends d.advance c.advance rest := by
  obtain ⟨char, others, hahead⟩ := List.exists_cons_of_ne_nil hc
  refine ⟨?_, h.stops⟩
  rw [ahead_advance, ahead_advance, h.ahead, hahead]
  rfl

/-- The character after the current one is the same, or it is the end for the one cursor
and a stop or the end for the other. -/
theorem next (hc : c.ahead ≠ []) :
    d.next = c.next ∨ c.next = endMark ∧ (IsStop d.next ∨ d.next = endMark) := by
  obtain ⟨char, others, hahead⟩ := List.exists_cons_of_ne_nil hc
  rw [Cursor.next, Cursor.next, h.ahead, hahead]
  cases others with
  | nil =>
    refine Or.inr ⟨rfl, ?_⟩
    cases hrest : rest with
    | nil => exact Or.inr rfl
    | cons stop others =>
      have hstops := h.stops
      rw [hrest] at hstops
      exact Or.inl (hstops stop rfl)
  | cons second others => exact Or.inl rfl

theorem next_of {α : Type} {f : Char → α} (hc : c.ahead ≠ [])
    (hstop : ∀ stop, IsStop stop → f stop = f endMark) : f d.next = f c.next := by
  obtain heq | ⟨hend, hstops | hend'⟩ := h.next hc
  · rw [heq]
  · rw [hend, hstop _ hstops]
  · rw [hend, hend']

theorem next_eq_iff (hc : c.ahead ≠ []) {m : Char}
    (hm : m ≠ ' ' ∧ m ≠ '\n' ∧ m ≠ ')' ∧ m ≠ endMark) : d.next = m ↔ c.next = m := by
  obtain heq | ⟨hend, hstops⟩ := h.next hc
  · rw [heq]
  · rw [hend]
    refine ⟨fun heq => ?_, fun heq => absurd heq.symm hm.2.2.2⟩
    rw [heq] at hstops
    obtain (hblank | hline | hclose) | hend' := hstops
    · exact absurd hblank hm.1
    · exact absurd hline hm.2.1
    · exact absurd hclose hm.2.2.1
    · exact absurd hend' hm.2.2.2

theorem takeWhile {p : Char → Bool} (hp : ∀ stop, IsStop stop → p stop = false) :
    d.takeWhile p = ((c.takeWhile p).1, d.skip (c.takeWhile p).1.length) := by
  have htaken : d.ahead.takeWhile p = c.ahead.takeWhile p := by
    rw [h.ahead, h.stops.takeWhile_append hp]
  rw [Cursor.takeWhile, htaken]
  rfl

theorem skip {n : Nat} (hn : n ≤ c.ahead.length) : Extends (d.skip n) (c.skip n) rest := by
  refine ⟨?_, h.stops⟩
  rw [ahead_skip, ahead_skip, h.ahead, List.drop_append_of_le_length hn]

end Extends

/-- What was scanned at `c` with the result `t` and `after` is scanned again at `d`, with
another place. -/
def Repeats (c d : Cursor) (t : Token) (after : Cursor) (again : Except Fault Token × Cursor) :
    Prop :=
  ∃ n, n ≤ c.ahead.length ∧ after = c.skip n ∧
    again = (.ok { t with place := some d.place }, d.skip n)

section Repeats

variable {c d after : Cursor} {t : Token} {rest : List Char} (hextends : Extends d c rest)

/-- One character is scanned. -/
theorem repeats_single (hc : c.ahead ≠ []) (tag : Tag) (payload : Payload) :
    Repeats c d ⟨tag, payload, some c.place⟩ c.advance
      (.ok ⟨tag, payload, some d.place⟩, d.advance) := by
  have hlength : 0 < c.ahead.length := List.length_pos_iff.mpr hc
  exact ⟨1, by omega, rfl, rfl⟩

include hextends

theorem scanNumber_repeats (hc : c.ahead ≠ []) :
    Repeats c d c.scanNumber.1 c.scanNumber.2 (.ok d.scanNumber.1, d.scanNumber.2) := by
  have hrest := (hextends.advance hc).takeWhile fun _ => IsStop.isNumberChar
  have hlength := length_takeWhile_le isNumberChar c.advance
  rw [ahead_advance, List.length_tail] at hlength
  have hpos : 0 < c.ahead.length := List.length_pos_iff.mpr hc
  refine ⟨(c.advance.takeWhile isNumberChar).1.length + 1, by omega, rfl, ?_⟩
  unfold scanNumber
  rw [hrest, hextends.current hc]
  rfl

theorem scanLabel_repeats :
    Repeats c d c.scanLabel.1 c.scanLabel.2 (.ok d.scanLabel.1, d.scanLabel.2) := by
  have hlabel := hextends.takeWhile fun _ => IsStop.isLabelChar
  refine ⟨_, length_takeWhile_le isLabelChar c, rfl, ?_⟩
  unfold scanLabel
  rw [hlabel]
  rfl

theorem scanString_repeats (hc : c.ahead ≠ []) (h : c.scanString = (.ok t, after)) :
    Repeats c d t after d.scanString := by
  unfold scanString at h
  obtain ⟨htoken, rfl⟩ := Prod.mk.inj h
  split at htoken
  · rename_i hclosed
    cases htoken
    have hlength := stringBody_length_le [] 0 c.advance.ahead
    rw [ahead_advance, List.length_tail] at hlength
    have hpos : 0 < c.ahead.length := List.length_pos_iff.mpr hc
    have hbody : stringBody [] 0 d.advance.ahead = stringBody [] 0 c.advance.ahead := by
      rw [(hextends.advance hc).ahead, stringBody_append rest hclosed]
    refine ⟨(stringBody [] 0 c.advance.ahead).length + 1, by rw [ahead_advance]; omega, rfl, ?_⟩
    unfold scanString
    rw [hbody]
    dsimp only
    rw [if_pos hclosed]
    rfl
  · cases htoken

/-- The name of a character is found again. -/
theorem characterName_repeats (hc : c.ahead ≠ []) :
    ∃ (name : List Char) (n : Nat), n ≤ c.ahead.length ∧
      (if Text.isLetter c.current = true then c.takeWhile Text.isLetter
        else ([c.current], c.advance)) = (name, c.skip n) ∧
      (if Text.isLetter d.current = true then d.takeWhile Text.isLetter
        else ([d.current], d.advance)) = (name, d.skip n) := by
  rw [hextends.current hc]
  split
  · have hname := hextends.takeWhile fun _ => IsStop.isLetter
    exact ⟨_, _, length_takeWhile_le Text.isLetter c, rfl, hname⟩
  · have hpos : 0 < c.ahead.length := List.length_pos_iff.mpr hc
    exact ⟨_, 1, hpos, rfl, rfl⟩

theorem scanCharacter_repeats (hc : c.ahead ≠ []) (hc' : c.advance.ahead ≠ [])
    (h : c.scanCharacter = (.ok t, after)) : Repeats c d t after d.scanCharacter := by
  unfold scanCharacter at h
  dsimp only at h
  obtain ⟨-, h⟩ | ⟨hend, h⟩ := ite_eq_iff.mp h
  · cases h
  have hfirst := ahead_ne_nil hend
  have hd := (hextends.advance hc).advance hc'
  obtain ⟨name, n, hn, hname, hname'⟩ := characterName_repeats hd hfirst
  have hlength : n + 2 ≤ c.ahead.length := by
    simp only [ahead_advance, List.length_tail] at hn
    have hpos : 0 < c.advance.ahead.length := List.length_pos_iff.mpr hc'
    rw [ahead_advance, List.length_tail] at hpos
    omega
  rw [hname] at h
  unfold scanCharacter
  dsimp only at h ⊢
  rw [hname', hd.current hfirst, if_neg hend]
  dsimp only
  obtain ⟨hshort, h⟩ | ⟨hshort, h⟩ := ite_eq_iff.mp h
  · cases h
    rw [if_pos hshort]
    exact ⟨n + 2, hlength, rfl, rfl⟩
  · rw [if_neg hshort]
    cases hnamed : namedChar? (String.ofList name) with
    | none =>
      rw [hnamed] at h
      cases h
    | some char =>
      rw [hnamed] at h
      cases h
      exact ⟨n + 2, hlength, rfl, rfl⟩

theorem scanHash_repeats (hc : c.ahead ≠ []) (h : c.scanHash = (.ok t, after)) :
    Repeats c d t after d.scanHash := by
  have hbackslash : d.next = '\\' ↔ c.next = '\\' := hextends.next_eq_iff hc (by decide)
  unfold scanHash at h ⊢
  obtain ⟨hcharacter, h⟩ | ⟨hcharacter, h⟩ := ite_eq_iff.mp h
  · rw [if_pos (hbackslash.mpr hcharacter)]
    refine scanCharacter_repeats hextends hc ?_ h
    intro hnil
    rw [Cursor.next, List.drop_one, ← ahead_advance, hnil] at hcharacter
    cases hcharacter
  · rw [if_neg (mt hbackslash.mp hcharacter)]
    have hletters := (hextends.advance hc).takeWhile fun _ => IsStop.isLetter
    have hlength := length_takeWhile_le Text.isLetter c.advance
    rw [ahead_advance, List.length_tail] at hlength
    have hpos : 0 < c.ahead.length := List.length_pos_iff.mpr hc
    dsimp only at h ⊢
    rw [hletters]
    obtain ⟨htruth, h⟩ | ⟨htruth, h⟩ := ite_eq_iff.mp h
    · cases h
      rw [if_pos htruth]
      exact ⟨(c.advance.takeWhile Text.isLetter).1.length + 1, by omega, rfl, rfl⟩
    · cases h

theorem scanHere_repeats (heof : t.tag ≠ .eof) (h : c.scanHere = (.ok t, after)) :
    Repeats c d t after d.scanHere := by
  unfold scanHere at h ⊢
  dsimp only at h ⊢
  obtain ⟨-, h⟩ | ⟨hend, h⟩ := ite_eq_iff.mp h
  · cases h
    exact absurd rfl heof
  have hc := ahead_ne_nil hend
  have hdigit : Text.isDigit d.next = Text.isDigit c.next :=
    hextends.next_of hc fun stop hstop => hstop.isDigit
  have hdelimiter : isDelimiter d.next = isDelimiter c.next :=
    hextends.next_of hc fun stop hstop => hstop.isDelimiter
  have hat : d.next = '@' ↔ c.next = '@' := hextends.next_eq_iff hc (by decide)
  rw [hextends.current hc, hdigit, hdelimiter, if_neg hend]
  obtain ⟨hcase, h⟩ | ⟨hcase, h⟩ := ite_eq_iff.mp h
  · cases h
    rw [if_pos hcase]
    exact scanNumber_repeats hextends hc
  rw [if_neg hcase]
  obtain ⟨hcase, h⟩ | ⟨hcase, h⟩ := ite_eq_iff.mp h
  · cases h
    rw [if_pos hcase]
    exact repeats_single hc _ _
  rw [if_neg hcase]
  obtain ⟨hcase, h⟩ | ⟨hcase, h⟩ := ite_eq_iff.mp h
  · cases h
    rw [if_pos hcase]
    exact repeats_single hc _ _
  rw [if_neg hcase]
  obtain ⟨hcase, h⟩ | ⟨hcase, h⟩ := ite_eq_iff.mp h
  · cases h
    rw [if_pos hcase]
    exact scanLabel_repeats hextends
  rw [if_neg hcase]
  obtain ⟨hcase, h⟩ | ⟨hcase, h⟩ := ite_eq_iff.mp h
  · rw [if_pos hcase]
    exact scanString_repeats hextends hc h
  rw [if_neg hcase]
  obtain ⟨hcase, h⟩ | ⟨hcase, h⟩ := ite_eq_iff.mp h
  · rw [if_pos hcase]
    exact scanHash_repeats hextends hc h
  rw [if_neg hcase]
  obtain ⟨hcase, h⟩ | ⟨hcase, h⟩ := ite_eq_iff.mp h
  · cases h
    rw [if_pos hcase]
    exact repeats_single hc _ _
  rw [if_neg hcase]
  obtain ⟨hcase, h⟩ | ⟨hcase, h⟩ := ite_eq_iff.mp h
  · cases h
    rw [if_pos hcase]
    exact repeats_single hc _ _
  rw [if_neg hcase]
  obtain ⟨hcase, h⟩ | ⟨hcase, h⟩ := ite_eq_iff.mp h
  · cases h
    rw [if_pos hcase]
    exact repeats_single hc _ _
  rw [if_neg hcase]
  obtain ⟨hcase, h⟩ | ⟨hcase, h⟩ := ite_eq_iff.mp h
  · cases h
    rw [if_pos hcase]
    exact repeats_single hc _ _
  rw [if_neg hcase]
  obtain ⟨hcase, h⟩ | ⟨hcase, h⟩ := ite_eq_iff.mp h
  · rw [if_pos hcase]
    obtain ⟨hsplice, h⟩ | ⟨hsplice, h⟩ := ite_eq_iff.mp h
    · cases h
      rw [if_pos (hat.mpr hsplice)]
      refine ⟨2, ?_, rfl, rfl⟩
      obtain ⟨char, others, hahead⟩ := List.exists_cons_of_ne_nil hc
      rw [Cursor.next, hahead] at hsplice
      cases others with
      | nil => cases hsplice
      | cons second others =>
        rw [hahead, List.length_cons, List.length_cons]
        omega
    · cases h
      rw [if_neg (mt hat.mp hsplice)]
      exact repeats_single hc _ _
  · cases h

end Repeats

/-- Blanks and comments are found again if a token follows them. -/
theorem triviaLength_append {inComment : Bool} {n : Nat} {cs : List Char} (rest : List Char)
    (h : triviaLength inComment n cs < n + cs.length) :
    triviaLength inComment n (cs ++ rest) = triviaLength inComment n cs := by
  fun_induction triviaLength inComment n cs with
  | case1 => simp at h
  | case2 n others => rw [List.cons_append, triviaLength, if_pos rfl, if_pos rfl]
  | case3 n c cs hend ih =>
    rw [List.cons_append, triviaLength, if_pos rfl, if_neg hend]
    exact ih (by rw [List.length_cons] at h; omega)
  | case4 inComment n c cs hcomment hblank ih =>
    rw [List.cons_append, triviaLength, if_neg hcomment, if_pos hblank]
    exact ih (by rw [List.length_cons] at h; omega)
  | case5 inComment n cs hcomment hblank ih =>
    rw [List.cons_append, triviaLength, if_neg hcomment, if_neg hblank, if_pos rfl]
    exact ih (by rw [List.length_cons] at h; omega)
  | case6 inComment n c cs hcomment hblank hmark =>
    rw [List.cons_append, triviaLength, if_neg hcomment, if_neg hblank, if_neg hmark]

theorem skip_skip (c : Cursor) (m n : Nat) : (c.skip m).skip n = c.skip (m + n) := by
  induction m generalizing c with
  | zero => rw [Nat.zero_add, skip]
  | succ m ih => rw [skip, ih, Nat.succ_add, skip]

/-- A token stands behind the blanks and comments that a text starts with. -/
theorem triviaLength_lt_of_scan {c after : Cursor} {t : Token} (heof : t.tag ≠ .eof)
    (h : c.scan = (.ok t, after)) : triviaLength false 0 c.ahead < c.ahead.length := by
  obtain ⟨-, rfl, -⟩ | ⟨hend, -⟩ := scanHere_cases h
  · exact absurd rfl heof
  · have hpos := List.length_pos_iff.mpr (ahead_ne_nil hend)
    rw [skipTrivia, ahead_skip, List.length_drop] at hpos
    omega

/-- A token is scanned again if it is followed by a stop. -/
theorem scan_repeats {c d after : Cursor} {t : Token} {rest : List Char}
    (hextends : Extends d c rest) (heof : t.tag ≠ .eof) (h : c.scan = (.ok t, after)) :
    ∃ n place, n ≤ c.ahead.length ∧ after = c.skip n ∧
      d.scan = (.ok { t with place := some place }, d.skip n) := by
  have hlength := triviaLength_lt_of_scan heof h
  have htrivia : d.skipTrivia = d.skip (triviaLength false 0 c.ahead) := by
    rw [skipTrivia, hextends.ahead, triviaLength_append rest (by rwa [Nat.zero_add])]
  have hextends' : Extends d.skipTrivia c.skipTrivia rest := by
    rw [htrivia]
    exact hextends.skip (Nat.le_of_lt hlength)
  obtain ⟨n, hn, hafter, hagain⟩ := scanHere_repeats hextends' heof h
  rw [skipTrivia, ahead_skip, List.length_drop] at hn
  refine ⟨triviaLength false 0 c.ahead + n, d.skipTrivia.place, by omega, ?_, ?_⟩
  · rw [hafter, skipTrivia, skip_skip]
  · rw [scan, hagain, ← skip_skip, ← htrivia]

end Cursor

end TowerLisp
