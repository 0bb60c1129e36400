import TowerLisp.Proofs.ComputedFaults
import TowerLisp.Proofs.Lexing
import TowerLisp.Proofs.Places

/-!
Texts one below the other. What ends a token at the end of a text also ends it at the end of
a line, and what a cursor scans depends on its place only in that the token is put there. So
two texts with a line end between them have the tokens of the first and then those of the
second, as many lines further down as the first takes up.
-/

namespace TowerLisp

namespace Place

/-- The same column, some lines further down. -/
def down (lines : Nat) (p : Place) : Place :=
  ⟨p.line + lines, p.column⟩

/-- The relabelling that moves everything down. -/
def lowered (lines : Nat) (p : Place) : Option Place :=
  some (p.down lines)

theorem after_down (lines : Nat) (p : Place) (c : Char) :
    (p.down lines).after c = (p.after c).down lines := by
  unfold after
  split
  · simp only [down, Nat.add_right_comm]
  · rfl

theorem line_behind (before : List Char) : (behind before).line = before.count '\n' + 1 := by
  induction before with
  | nil => rfl
  | cons c before ih =>
    rw [behind, after]
    split
    · rename_i hc
      rw [hc, List.count_cons_self, ih]
    · rename_i hc
      rw [List.count_cons_of_ne hc, ih]

/-- The place behind a text and a line end. -/
theorem behind_line (text : List Char) :
    behind ('\n' :: text.reverse) = first.down (text.count '\n' + 1) := by
  rw [behind, after, if_pos rfl, line_behind, List.count_reverse, first, down]
  simp only [mk.injEq, and_true]
  omega

end Place

namespace Cursor

/-- The cursor `d` is before the same text as `c`, some lines further down. -/
structure Below (lines : Nat) (c d : Cursor) : Prop where
  ahead : d.ahead = c.ahead
  place : d.place = c.place.down lines

/-- What is scanned at two cursors that are one below the other. -/
def ScansBelow (lines : Nat) (r r' : Except Fault Token × Cursor) : Prop :=
  Corresponds (fun f g => g = f.relabel (Place.lowered lines))
    (fun t u => u = t.relabel (Place.lowered lines)) r.1 r'.1 ∧ Below lines r.2 r'.2

theorem ScansBelow.ite {lines : Nat} {p : Prop} [Decidable p]
    {r r' s s' : Except Fault Token × Cursor} (hr : ScansBelow lines r r')
    (hs : ScansBelow lines s s') :
    ScansBelow lines (if p then r else s) (if p then r' else s') := by
  split
  · exact hr
  · exact hs

section Below

variable {lines : Nat} {c d c' d' : Cursor} (h : Below lines c d)

include h

theorem Below.advance : Below lines c.advance d.advance := by
  obtain ⟨before, ahead, place, hplace⟩ := c
  obtain ⟨before', ahead', place', hplace'⟩ := d
  obtain ⟨hahead, hdown⟩ := h
  cases hahead
  cases hdown
  cases ahead with
  | nil => exact ⟨rfl, rfl⟩
  | cons char ahead => exact ⟨rfl, Place.after_down lines place char⟩

theorem Below.skip (n : Nat) : Below lines (c.skip n) (d.skip n) := by
  induction n generalizing c d with
  | zero => exact h
  | succ n ih => exact ih h.advance

theorem Below.current : d.current = c.current := by
  rw [Cursor.current, h.ahead]
  rfl

theorem Below.next : d.next = c.next := by
  rw [Cursor.next, h.ahead]
  rfl

theorem Below.takeWhile (p : Char → Bool) :
    (d.takeWhile p).1 = (c.takeWhile p).1 ∧ Below lines (c.takeWhile p).2 (d.takeWhile p).2 := by
  refine ⟨congrArg (List.takeWhile p) h.ahead, ?_⟩
  change Below lines (c.skip (c.ahead.takeWhile p).length) (d.skip (d.ahead.takeWhile p).length)
  rw [h.ahead]
  exact h.skip _

theorem scansBelow_ok (tag : Tag) (payload : Payload) (h' : Below lines c' d') :
    ScansBelow lines (.ok ⟨tag, payload, some c.place⟩, c')
      (.ok ⟨tag, payload, some d.place⟩, d') := by
  refine ⟨.ok ?_, h'⟩
  rw [h.place]
  rfl

theorem scansBelow_error (issue : SyntaxIssue) (h' : Below lines c' d') :
    ScansBelow lines (.error (c.fault issue), c') (.error (d.fault issue), d') := by
  refine ⟨.error ?_, h'⟩
  rw [fault, fault, h.place]
  rfl

theorem scanNumber_below :
    ScansBelow lines (.ok c.scanNumber.1, c.scanNumber.2) (.ok d.scanNumber.1, d.scanNumber.2) := by
  obtain ⟨htaken, hrest⟩ := h.advance.takeWhile isNumberChar
  unfold scanNumber
  dsimp only
  rw [htaken, h.current]
  exact scansBelow_ok h _ _ hrest

theorem scanLabel_below :
    ScansBelow lines (.ok c.scanLabel.1, c.scanLabel.2) (.ok d.scanLabel.1, d.scanLabel.2) := by
  obtain ⟨htaken, hrest⟩ := h.takeWhile isLabelChar
  unfold scanLabel
  dsimp only
  rw [htaken]
  exact scansBelow_ok h _ _ hrest

theorem scanString_below : ScansBelow lines c.scanString d.scanString := by
  unfold scanString
  rw [h.advance.ahead]
  dsimp only
  split
  · exact scansBelow_ok h _ _ (h.advance.skip _)
  · exact scansBelow_error h _ (h.advance.skip _)

theorem scanCharacter_below : ScansBelow lines c.scanCharacter d.scanCharacter := by
  have hfirst := h.advance.advance
  unfold scanCharacter
  dsimp only
  rw [hfirst.current]
  split
  · exact scansBelow_error h _ hfirst
  obtain ⟨name, after, after', hname, hname', hafter⟩ : ∃ name after after',
      (if Text.isLetter c.advance.advance.current = true then
        c.advance.advance.takeWhile Text.isLetter
        else ([c.advance.advance.current], c.advance.advance.advance)) = (name, after) ∧
      (if Text.isLetter c.advance.advance.current = true then
        d.advance.advance.takeWhile Text.isLetter
        else ([c.advance.advance.current], d.advance.advance.advance)) = (name, after') ∧
      Below lines after after' := by
    split
    · obtain ⟨htaken, hrest⟩ := hfirst.takeWhile Text.isLetter
      exact ⟨_, _, (d.advance.advance.takeWhile Text.isLetter).2, rfl, Prod.ext htaken rfl, hrest⟩
    · exact ⟨_, _, _, rfl, rfl, hfirst.advance⟩
  rw [hname, hname']
  dsimp only
  split
  · exact scansBelow_ok h _ _ hafter
  cases namedChar? (String.ofList name) with
  | none => exact scansBelow_error h _ hafter
  | some char => exact scansBelow_ok h _ _ hafter

theorem scanHash_below : ScansBelow lines c.scanHash d.scanHash := by
  unfold scanHash
  rw [h.next]
  split
  · exact scanCharacter_below h
  obtain ⟨htaken, hrest⟩ := h.advance.takeWhile Text.isLetter
  dsimp only
  rw [htaken]
  split
  · exact scansBelow_ok h _ _ hrest
  · exact scansBelow_error h _ hrest

theorem scanHere_below : ScansBelow lines c.scanHere d.scanHere := by
  unfold scanHere
  dsimp only
  rw [h.current, h.next]
  refine .ite (scansBelow_ok h _ _ h) (.ite (scanNumber_below h) ?_)
  refine .ite (scansBelow_ok h _ _ h.advance) (.ite (scansBelow_ok h _ _ h.advance) ?_)
  refine .ite (scanLabel_below h) (.ite (scanString_below h) (.ite (scanHash_below h) ?_))
  refine .ite (scansBelow_ok h _ _ h.advance) (.ite (scansBelow_ok h _ _ h.advance) ?_)
  refine .ite (scansBelow_ok h _ _ h.advance) (.ite (scansBelow_ok h _ _ h.advance) ?_)
  refine .ite (.ite (scansBelow_ok h _ _ h.advance.advance) (scansBelow_ok h _ _ h.advance)) ?_
  exact scansBelow_error h _ h

theorem scan_below : ScansBelow lines c.scan d.scan := by
  rw [scan, scan, skipTrivia, skipTrivia, h.ahead]
  exact scanHere_below (h.skip _)

end Below

end Cursor

namespace Tokens

/-- The tokens of a text further down are further down. -/
theorem ofCursor_below {lines : Nat} {c d : Cursor} (h : Cursor.Below lines c d) :
    ofCursor d = (ofCursor c).relabel (Place.lowered lines) := by
  induction hlength : c.ahead.length using Nat.strongRecOn generalizing c d with
  | ind n ih =>
    obtain ⟨scanned, after, hscan⟩ : ∃ scanned after, c.scan = (scanned, after) := ⟨_, _, rfl⟩
    obtain ⟨scanned', after', hscan'⟩ : ∃ scanned after, d.scan = (scanned, after) := ⟨_, _, rfl⟩
    obtain ⟨hresult, hafter⟩ := Cursor.scan_below h
    rw [hscan, hscan'] at hresult hafter
    cases hresult with
    | error hfault =>
      rw [ofCursor_broken hscan, ofCursor_broken hscan', hfault]
      rfl
    | @ok t u htoken =>
      subst htoken
      by_cases heof : t.tag = .eof
      · rw [ofCursor_done hscan heof, ofCursor_done hscan' heof]
        rfl
      · have hshorter := Cursor.scan_shorter hscan heof
        rw [ofCursor_more hscan heof, ofCursor_more hscan' heof,
          ih after.ahead.length (by omega) hafter rfl]
        rfl

end Tokens

namespace Cursor

theorem before_skip (c : Cursor) (n : Nat) :
    (c.skip n).before = (c.ahead.take n).reverse ++ c.before := by
  induction n generalizing c with
  | zero => rfl
  | succ n ih =>
    rw [skip, ih]
    obtain ⟨before, _ | ⟨char, ahead⟩, place, h⟩ := c
    · simp [advance]
    · simp [advance]

/-- A token that is scanned is put at the cursor, and so is a fault of scanning. -/
def PutsAt (c : Cursor) (r : Except Fault Token × Cursor) : Prop :=
  (∀ t, r.1 = .ok t → t.place = some c.place) ∧
    ∀ fault, r.1 = .error fault → ∃ issue, fault = c.fault issue ∧ issue.ofEvaluation = false

theorem PutsAt.ite {c : Cursor} {p : Prop} [Decidable p] {r s : Except Fault Token × Cursor}
    (hr : c.PutsAt r) (hs : c.PutsAt s) : c.PutsAt (if p then r else s) := by
  split
  · exact hr
  · exact hs

theorem putsAt_ok (c after : Cursor) (tag : Tag) (payload : Payload) :
    c.PutsAt (.ok ⟨tag, payload, some c.place⟩, after) := by
  refine ⟨?_, by rintro fault ⟨⟩⟩
  rintro t ⟨⟩
  rfl

theorem putsAt_error (c after : Cursor) (issue : SyntaxIssue)
    (hissue : issue.ofEvaluation = false) : c.PutsAt (.error (c.fault issue), after) := by
  refine ⟨by rintro t ⟨⟩, ?_⟩
  rintro fault ⟨⟩
  exact ⟨issue, rfl, hissue⟩

theorem scanString_putsAt (c : Cursor) : c.PutsAt c.scanString := by
  unfold scanString
  dsimp only
  split
  · exact putsAt_ok c _ _ _
  · exact putsAt_error c _ _ rfl

theorem scanCharacter_putsAt (c : Cursor) : c.PutsAt c.scanCharacter := by
  unfold scanCharacter
  dsimp only
  refine .ite (putsAt_error c _ _ rfl) (.ite (putsAt_ok c _ _ _) ?_)
  split
  · exact putsAt_ok c _ _ _
  · exact putsAt_error c _ _ rfl

theorem scanHash_putsAt (c : Cursor) : c.PutsAt c.scanHash := by
  unfold scanHash
  exact .ite (scanCharacter_putsAt c) (.ite (putsAt_ok c _ _ _) (putsAt_error c _ _ rfl))

theorem scanHere_putsAt (c : Cursor) : c.PutsAt c.scanHere := by
  unfold scanHere
  refine .ite (putsAt_ok c _ _ _) (.ite (putsAt_ok c _ _ _) ?_)
  refine .ite (putsAt_ok c _ _ _) (.ite (putsAt_ok c _ _ _) ?_)
  refine .ite (putsAt_ok c _ _ _) (.ite (scanString_putsAt c) (.ite (scanHash_putsAt c) ?_))
  refine .ite (putsAt_ok c _ _ _) (.ite (putsAt_ok c _ _ _) ?_)
  refine .ite (putsAt_ok c _ _ _) (.ite (putsAt_ok c _ _ _) ?_)
  exact .ite (.ite (putsAt_ok c _ _ _) (putsAt_ok c _ _ _)) (putsAt_error c _ _ rfl)

/-- The cursor `d` is at the spot of `c` in a text that goes on with `rest`. -/
structure Continues (d c : Cursor) (rest : List Char) : Prop where
  before : d.before = c.before
  ahead : d.ahead = c.ahead ++ rest

theorem Continues.skip {c d : Cursor} {rest : List Char} (h : Continues d c rest) {n : Nat}
    (hn : n ≤ c.ahead.length) : Continues (d.skip n) (c.skip n) rest := by
  refine ⟨?_, ?_⟩
  · rw [before_skip, before_skip, h.ahead, h.before, List.take_append_of_le_length hn]
  · rw [ahead_skip, ahead_skip, h.ahead, List.drop_append_of_le_length hn]

theorem Continues.place {c d : Cursor} {rest : List Char} (h : Continues d c rest) :
    d.place = c.place := by
  rw [d.place_eq, c.place_eq, h.before]

/-- A token is the same if a stop and more text follow it. -/
theorem Continues.scan {c d after : Cursor} {rest : List Char} {t : Token}
    (h : Continues d c rest) (hrest : Stops rest) (heof : t.tag ≠ .eof)
    (hscan : c.scan = (.ok t, after)) :
    ∃ n, n ≤ c.ahead.length ∧ after = c.skip n ∧ d.scan = (.ok t, d.skip n) := by
  obtain ⟨n, place, hn, hafter, hagain⟩ := scan_repeats ⟨h.ahead, hrest⟩ heof hscan
  refine ⟨n, hn, hafter, ?_⟩
  have hlength := triviaLength_lt_of_scan heof hscan
  have htrivia : d.skipTrivia.place = c.skipTrivia.place := by
    rw [skipTrivia, h.ahead, triviaLength_append rest (by rwa [Nat.zero_add])]
    exact (h.skip (Nat.le_of_lt hlength)).place
  have hplace : t.place = some c.skipTrivia.place :=
    (scanHere_putsAt _).1 t (congrArg Prod.fst hscan)
  have hplace' : some place = some d.skipTrivia.place :=
    (scanHere_putsAt _).1 { t with place := some place } (congrArg Prod.fst hagain)
  rw [hagain, hplace', htrivia, ← hplace]

/-- Blanks and comments up to the end of a line go on below it. -/
theorem triviaLength_line {inComment : Bool} {text : List Char}
    (h : triviaLength inComment 0 text = text.length) (rest : List Char) :
    triviaLength inComment 0 (text ++ '\n' :: rest) =
      text.length + 1 + triviaLength false 0 rest := by
  induction text generalizing inComment with
  | nil =>
    rw [List.nil_append, triviaLength]
    split
    · rw [if_neg (by decide), triviaLength_add]
      exact Nat.add_comm _ _
    · rw [triviaLength_add]
      exact Nat.add_comm _ _
  | cons c text ih =>
    have hstep : ∀ inComment', triviaLength inComment' 1 text = (c :: text).length →
        triviaLength inComment' 1 (text ++ '\n' :: rest) =
          (c :: text).length + 1 + triviaLength false 0 rest := by
      intro inComment' htext
      rw [triviaLength_add] at htext
      rw [triviaLength_add, ih (Nat.succ.inj htext), List.length_cons]
      omega
    rw [triviaLength] at h
    rw [List.cons_append, triviaLength]
    split at h
    · rw [if_pos ‹_›]
      split at h
      · cases h
      · rw [if_neg ‹_›]
        exact hstep _ h
    · rw [if_neg ‹_›]
      split at h
      · rw [if_pos ‹_›]
        exact hstep _ h
      rw [if_neg ‹_›]
      split at h
      · rw [if_pos ‹_›]
        exact hstep _ h
      · cases h

theorem triviaLength_le (inComment : Bool) (text : List Char) :
    triviaLength inComment 0 text ≤ text.length := by
  induction text generalizing inComment with
  | nil => exact Nat.le_refl 0
  | cons c text ih =>
    have hstep (inComment') : triviaLength inComment' 1 text ≤ (c :: text).length := by
      rw [triviaLength_add, List.length_cons]
      exact Nat.succ_le_succ (ih inComment')
    rw [triviaLength]
    split
    · split
      · exact Nat.zero_le _
      · exact hstep _
    split
    · exact hstep _
    split
    · exact hstep _
    · exact Nat.zero_le _

/-- At the end of a text without the end mark there is nothing but blanks and comments. -/
theorem triviaLength_of_eof {c after : Cursor} {t : Token} (hend : endMark ∉ c.ahead)
    (heof : t.tag = .eof) (h : c.scan = (.ok t, after)) :
    triviaLength false 0 c.ahead = c.ahead.length := by
  have hcurrent : c.skipTrivia.current = endMark := by
    obtain ⟨hcurrent, -⟩ | ⟨-, hscanned⟩ := scanHere_cases h
    · exact hcurrent
    · have hspelled := hscanned.spelled
      rw [Token.Spelled, heof] at hspelled
      exact hspelled.not_eof.elim
  have hnil : c.ahead.drop (triviaLength false 0 c.ahead) = [] := by
    rw [← ahead_skip, ← skipTrivia]
    cases hahead : c.skipTrivia.ahead with
    | nil => rfl
    | cons char rest =>
      rw [current_of_ahead hahead] at hcurrent
      rw [skipTrivia, ahead_skip] at hahead
      refine absurd (List.mem_of_mem_drop (i := triviaLength false 0 c.ahead) ?_) hend
      rw [hahead, hcurrent]
      exact List.mem_cons_self
  exact Nat.le_antisymm (triviaLength_le _ _) (List.drop_eq_nil_iff.mp hnil)

end Cursor

namespace Tokens

/-- At the end of a text the tokens go on with those of the line below. -/
theorem ofCursor_line {c d : Cursor} {eof : Token} {rest : List Char}
    (h : d.Continues c ('\n' :: rest)) (hend : Cursor.endMark ∉ c.ahead)
    (htokens : ofCursor c = .done eof) :
    ofCursor d = ofCursor (d.skip (c.ahead.length + 1)) := by
  obtain ⟨t, after, hscan, heof⟩ : ∃ t after, c.scan = (.ok t, after) ∧ t.tag = .eof := by
    obtain ⟨scanned, after, hscan⟩ : ∃ scanned after, c.scan = (scanned, after) := ⟨_, _, rfl⟩
    cases scanned with
    | error fault =>
      rw [ofCursor_broken hscan] at htokens
      cases htokens
    | ok t =>
      refine ⟨t, after, hscan, ?_⟩
      by_contra heof
      rw [ofCursor_more hscan heof] at htokens
      cases htokens
  have htrivia := Cursor.triviaLength_line (Cursor.triviaLength_of_eof hend heof hscan) rest
  refine ofCursor_congr ?_
  have hahead : (d.skip (c.ahead.length + 1)).ahead = rest := by
    rw [Cursor.ahead_skip, h.ahead]
    simp
  rw [Cursor.scan, Cursor.scan, Cursor.skipTrivia, Cursor.skipTrivia, hahead, h.ahead, htrivia,
    Cursor.skip_skip]

/-- The tokens of a text are the same if a line end and more text follow, and then those of
the lines below. -/
theorem ofCursor_continues {c d : Cursor} {front : List Token} {eof : Token} {rest : List Char}
    (h : d.Continues c ('\n' :: rest)) (hend : Cursor.endMark ∉ c.ahead)
    (htokens : ofCursor c = following front (.done eof)) :
    ofCursor d = following front (ofCursor (d.skip (c.ahead.length + 1))) := by
  induction front generalizing c d with
  | nil => exact ofCursor_line h hend htokens
  | cons t front ih =>
    obtain ⟨after, hscan⟩ := scan_of_ofCursor_more htokens
    have heof : t.tag ≠ .eof := by
      intro heof
      rw [ofCursor_done hscan heof] at htokens
      cases htokens
    rw [ofCursor_more hscan heof] at htokens
    obtain ⟨-, htokens⟩ := Tokens.more.inj htokens
    have hstops : Stops ('\n' :: rest) := stops_cons (Or.inr (Or.inl rfl)) rest
    obtain ⟨n, hn, rfl, hagain⟩ := h.scan hstops heof hscan
    have hend' : Cursor.endMark ∉ (c.skip n).ahead := by
      rw [Cursor.ahead_skip]
      exact fun hmem => hend (List.mem_of_mem_drop hmem)
    have hlength : n + ((c.skip n).ahead.length + 1) = c.ahead.length + 1 := by
      rw [Cursor.ahead_skip, List.length_drop]
      omega
    rw [ofCursor_more hagain heof, ih (h.skip hn) hend' htokens, Cursor.skip_skip, hlength]
    rfl

/-- A text with another one below it has its own tokens and then those of the other, as many
lines further down as it takes up. -/
theorem ofSource_line {source : List Char} {front : List Token} {eof : Token}
    (hend : Cursor.endMark ∉ source) (h : ofSource source = following front (.done eof))
    (below : List Char) :
    ofSource (source ++ '\n' :: below) =
      following front ((ofSource below).relabel (Place.lowered (source.count '\n' + 1))) := by
  have hcontinues :
      (Cursor.start (source ++ '\n' :: below)).Continues (.start source) ('\n' :: below) :=
    ⟨rfl, rfl⟩
  have hbelow : Cursor.Below (source.count '\n' + 1) (.start below)
      ((Cursor.start (source ++ '\n' :: below)).skip (source.length + 1)) := by
    refine ⟨?_, ?_⟩
    · rw [Cursor.ahead_skip]
      simp [Cursor.start]
    · have hbefore : ((source ++ '\n' :: below).take (source.length + 1)).reverse ++ [] =
          '\n' :: source.reverse := by
        simp [List.take_append, List.take_of_length_le]
      rw [Cursor.place_eq, Cursor.before_skip]
      exact (congrArg Place.behind hbefore).trans (Place.behind_line source)
  rw [ofSource, ofCursor_continues hcontinues hend h, ofSource, ← ofCursor_below hbelow]
  rfl

end Tokens

end TowerLisp
