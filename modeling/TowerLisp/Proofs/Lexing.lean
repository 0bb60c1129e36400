import TowerLisp.Proofs.ScanLocality

/-!
Texts as rows of tokens. `Lexes text rest said` tells that a text in front of `rest`
is split into tokens that say `said`, wherever it stands. Such texts are put together
piece by piece.
-/

namespace TowerLisp

namespace Token

/-- What a token says, without its place. -/
def said (t : Token) : Tag × Payload :=
  (t.tag, t.payload)

end Token

namespace Tokens

/-- Some tokens in front of others. -/
def following (front : List Token) (rest : Tokens) : Tokens :=
  front.foldr more rest

@[simp] theorem following_nil (rest : Tokens) : following [] rest = rest := rfl

@[simp] theorem following_cons (token : Token) (front : List Token) (rest : Tokens) :
    following (token :: front) rest = .more token (following front rest) := rfl

theorem following_append (front others : List Token) (rest : Tokens) :
    following (front ++ others) rest = following front (following others rest) :=
  List.foldr_append

theorem length_following (front : List Token) (rest : Tokens) :
    (following front rest).length = front.length + rest.length := by
  induction front with
  | nil => exact (Nat.zero_add _).symm
  | cons t front ih =>
    change (following front rest).length + 1 = _
    rw [ih, List.length_cons, Nat.add_right_comm]

theorem toList_following (front : List Token) (rest : Tokens) :
    (following front rest).toList = front ++ rest.toList := by
  induction front with
  | nil => rfl
  | cons t front ih => exact congrArg (t :: ·) ih

theorem ending_following (front : List Token) (rest : Tokens) :
    (following front rest).ending = rest.ending := by
  induction front with
  | nil => rfl
  | cons t front ih => exact ih

theorem tag_of_ofCursor_done {c : Cursor} {t : Token} (h : ofCursor c = .done t) :
    t.tag = .eof := by
  obtain ⟨scanned, after, hscan⟩ : ∃ scanned after, c.scan = (scanned, after) := ⟨_, _, rfl⟩
  cases scanned with
  | error fault =>
    rw [ofCursor_broken hscan] at h
    cases h
  | ok t' =>
    by_cases heof : t'.tag = .eof
    · rw [ofCursor_done hscan heof] at h
      cases h
      exact heof
    · rw [ofCursor_more hscan heof] at h
      cases h

theorem ofCursor_end {c : Cursor} (h : c.ahead = []) : ofCursor c = .done (c.token .eof "EOF") := by
  have hscan : c.scan = (.ok (c.token .eof "EOF"), c) := by
    rw [Cursor.scan, Cursor.skipTrivia, h]
    change c.scanHere = _
    rw [Cursor.scanHere, Cursor.current, h]
    rfl
  exact ofCursor_done hscan rfl

/-- Cursors at which the same is scanned are before the same tokens. -/
theorem ofCursor_congr {c d : Cursor} (h : c.scan = d.scan) : ofCursor c = ofCursor d := by
  obtain ⟨scanned, after, hscan⟩ : ∃ scanned after, d.scan = (scanned, after) := ⟨_, _, rfl⟩
  rw [hscan] at h
  cases scanned with
  | error fault => rw [ofCursor_broken h, ofCursor_broken hscan]
  | ok t =>
    by_cases heof : t.tag = .eof
    · rw [ofCursor_done h heof, ofCursor_done hscan heof]
    · rw [ofCursor_more h heof, ofCursor_more hscan heof]

end Tokens

open Tokens (following ofCursor)

/-- A text in front of `rest` is split into tokens that say `said`. -/
def Lexes (text rest : List Char) (said : List (Tag × Payload)) : Prop :=
  ∀ c : Cursor, c.ahead = text ++ rest → ∃ front after,
    ofCursor c = following front (ofCursor after) ∧ front.map Token.said = said ∧ after.ahead = rest

theorem lexes_nil (rest : List Char) : Lexes [] rest [] :=
  fun c hc => ⟨[], c, rfl, rfl, hc⟩

theorem Lexes.append {text others rest : List Char} {said said' : List (Tag × Payload)}
    (h : Lexes text (others ++ rest) said) (h' : Lexes others rest said') :
    Lexes (text ++ others) rest (said ++ said') := by
  intro c hc
  rw [List.append_assoc] at hc
  obtain ⟨front, after, hfront, hsaid, hafter⟩ := h c hc
  obtain ⟨front', after', hfront', hsaid', hafter'⟩ := h' after hafter
  refine ⟨front ++ front', after', ?_, ?_, hafter'⟩
  · rw [hfront, hfront', Tokens.following_append]
  · rw [List.map_append, hsaid, hsaid']

/-- A text that is scanned as one token. -/
theorem lexes_token {text rest : List Char} {tag : Tag} {payload : Payload} (heof : tag ≠ .eof)
    (h : ∀ c : Cursor, c.ahead = text ++ rest → ∃ place after,
      c.scan = (.ok ⟨tag, payload, place⟩, after) ∧ after.ahead = rest) :
    Lexes text rest [(tag, payload)] := by
  intro c hc
  obtain ⟨place, after, hscan, hafter⟩ := h c hc
  exact ⟨[_], after, Tokens.ofCursor_more hscan heof, rfl, hafter⟩

theorem triviaLength_add (inComment : Bool) (n : Nat) (cs : List Char) :
    triviaLength inComment (n + 1) cs = triviaLength inComment n cs + 1 := by
  induction cs generalizing inComment n with
  | nil => rfl
  | cons c cs ih =>
    rw [triviaLength, triviaLength]
    split
    · split
      · rfl
      · exact ih _ _
    · split
      · exact ih _ _
      · split
        · exact ih _ _
        · rfl

namespace Cursor

/-- A blank in front of a token is passed over. -/
theorem scan_blank {c : Cursor} {rest : List Char} (h : c.ahead = ' ' :: rest) :
    c.scan = c.advance.scan := by
  have hblank : Text.isBlank ' ' = true := by decide
  have htrivia : c.skipTrivia = c.advance.skipTrivia := by
    rw [skipTrivia, skipTrivia, ahead_advance, h, triviaLength, if_neg (by decide), if_pos hblank,
      triviaLength_add, skip]
    rfl
  rw [scan, scan, htrivia]

/-- Characters that start a token, and not a blank or a comment. -/
theorem skipTrivia_of_start {c : Cursor} {char : Char} {rest : List Char}
    (h : c.ahead = char :: rest) (hblank : Text.isBlank char = false) (hmark : char ≠ ';') :
    c.skipTrivia = c := by
  rw [skipTrivia, h, triviaLength, if_neg (by decide), hblank, if_neg hmark]
  rfl

/-- Marks that are no part of a label, a number or an operator. -/
theorem scanHere_mark {c : Cursor} {char : Char} (h : c.current = char)
    (hend : char ≠ endMark) (hdigit : Text.isDigit char = false)
    (hsign : char ≠ '+' ∧ char ≠ '-') (hoperator : isOperatorChar char = false)
    (hdot : char ≠ '.') (hletter : Text.isLetter char = false)
    (hlabel : isLabelMark char = false) :
    c.scanHere =
      if char = '"' then c.scanString
      else if char = '#' then c.scanHash
      else if char = '(' then (.ok ⟨.lparen, .text "(", some c.place⟩, c.advance)
      else if char = ')' then (.ok ⟨.rparen, .text ")", some c.place⟩, c.advance)
      else if char = '\x27' then (.ok ⟨.quote, .text "'", some c.place⟩, c.advance)
      else if char = '\x60' then (.ok ⟨.quasiquote, .text "\x60", some c.place⟩, c.advance)
      else if char = ',' then
        if c.next = '@' then (.ok (c.token .splice ",@"), c.advance.advance)
        else (.ok ⟨.unquote, .text ",", some c.place⟩, c.advance)
      else (.error (c.fault (.unexpectedCharacter (Text.shown [char]))), c) := by
  unfold scanHere
  dsimp only
  rw [h, if_neg hend, if_neg (by simp [hdigit, hsign]), if_neg (by simp [hoperator]),
    if_neg (by simp [hdot]), if_neg (by simp [hletter, hlabel])]

end Cursor

theorem Lexes.blank {text rest : List Char} {said : List (Tag × Payload)}
    (h : Lexes text rest said) : Lexes (' ' :: text) rest said := by
  intro c hc
  rw [Tokens.ofCursor_congr (Cursor.scan_blank hc)]
  exact h c.advance (by rw [Cursor.ahead_advance, hc]; rfl)

theorem current_of_ahead {c : Cursor} {char : Char} {rest : List Char}
    (h : c.ahead = char :: rest) : c.current = char := by
  rw [Cursor.current, h]
  rfl

theorem advance_of_ahead {c : Cursor} {char : Char} {rest : List Char}
    (h : c.ahead = char :: rest) : c.advance.ahead = rest := by
  rw [Cursor.ahead_advance, h]
  rfl

theorem lexes_lparen (rest : List Char) : Lexes ['('] rest [(.lparen, .text "(")] := by
  refine lexes_token (by decide) fun c hc => ⟨some c.place, c.advance, ?_, advance_of_ahead hc⟩
  rw [Cursor.scan, Cursor.skipTrivia_of_start hc (by decide) (by decide),
    Cursor.scanHere_mark (current_of_ahead hc) (by decide) (by decide) (by decide) (by decide)
      (by decide) (by decide) (by decide)]
  rfl

theorem lexes_rparen (rest : List Char) : Lexes [')'] rest [(.rparen, .text ")")] := by
  refine lexes_token (by decide) fun c hc => ⟨some c.place, c.advance, ?_, advance_of_ahead hc⟩
  rw [Cursor.scan, Cursor.skipTrivia_of_start hc (by decide) (by decide),
    Cursor.scanHere_mark (current_of_ahead hc) (by decide) (by decide) (by decide) (by decide)
      (by decide) (by decide) (by decide)]
  rfl

theorem lexes_quote (rest : List Char) : Lexes ['\x27'] rest [(.quote, .text "'")] := by
  refine lexes_token (by decide) fun c hc => ⟨some c.place, c.advance, ?_, advance_of_ahead hc⟩
  rw [Cursor.scan, Cursor.skipTrivia_of_start hc (by decide) (by decide),
    Cursor.scanHere_mark (current_of_ahead hc) (by decide) (by decide) (by decide) (by decide)
      (by decide) (by decide) (by decide)]
  rfl

theorem lexes_dot (rest : List Char) : Lexes ['.'] (' ' :: rest) [(.dot, .text ".")] := by
  refine lexes_token (by decide) fun c hc => ⟨some c.place, c.advance, ?_, advance_of_ahead hc⟩
  have hnext : c.next = ' ' := by
    rw [Cursor.next, hc]
    rfl
  rw [Cursor.scan, Cursor.skipTrivia_of_start hc (by decide) (by decide), Cursor.scanHere,
    current_of_ahead hc, hnext]
  rfl

/-- A printed string is one token. -/
theorem lexes_quoted {cs : List Char} (hcs : Cursor.endMark ∉ cs) (rest : List Char) :
    Lexes (Text.quoted cs) rest [(.string, .text (String.ofList cs))] := by
  refine lexes_token (by decide) fun c hc => ?_
  have hahead : c.ahead = '"' :: (Text.escape cs ++ '"' :: rest) := by
    rw [hc, Text.quoted, List.cons_append, List.cons_append, List.append_assoc]
    rfl
  have hbody := stringBody_escape hcs [] 0 rest
  refine ⟨some c.place, c.advance.skip ((Text.escape cs).length + 1), ?_, ?_⟩
  · rw [Cursor.scan, Cursor.skipTrivia_of_start hahead (by decide) (by decide),
      Cursor.scanHere_mark (current_of_ahead hahead) (by decide) (by decide) (by decide)
        (by decide) (by decide) (by decide) (by decide), if_pos rfl, Cursor.scanString,
      advance_of_ahead hahead, hbody, Nat.zero_add]
    rfl
  · rw [Cursor.ahead_skip, advance_of_ahead hahead]
    simp

/-- A text that is one token by itself is one in front of a stop. -/
theorem lexes_again {text : List Char} {t : Token} {after : Cursor}
    (h : (Cursor.start text).scan = (.ok t, after)) (heof : t.tag ≠ .eof)
    (hafter : after.ahead = []) {rest : List Char} (hrest : Stops rest) :
    Lexes text rest [t.said] := by
  refine lexes_token heof fun c hc => ?_
  obtain ⟨n, place, hn, rfl, hscan⟩ := Cursor.scan_repeats ⟨hc, hrest⟩ heof h
  refine ⟨some place, c.skip n, hscan, ?_⟩
  have htext : text.drop n = [] := by
    rw [Cursor.ahead_skip] at hafter
    exact hafter
  have hlength : n ≤ text.length := hn
  rw [Cursor.ahead_skip, hc, List.drop_append_of_le_length hlength, htext]
  rfl

end TowerLisp
