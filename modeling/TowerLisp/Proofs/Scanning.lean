import Mathlib.Logic.Basic
import TowerLisp.Token.Stream

/-!
Scanning moves on. A token other than the end takes up a character at least, so the
tokens of a text are those that scanning step by step gives, up to the end or the
first fault.
-/

namespace TowerLisp

namespace Tag

theorem keyword_of_ofKeyword? {word : String} {tag : Tag} (h : ofKeyword? word = some tag) :
    tag.keyword?.isSome = true := by
  unfold ofKeyword? at h
  split at h <;> cases h <;> rfl

end Tag

namespace Token

/-- The texts of scanned tokens, by their tags. -/
inductive Spelling : Tag → Payload → Prop where
  | number (text : String) : Spelling .number (.text text)
  | string (text : String) : Spelling .string (.text text)
  | character (text : String) : Spelling .character (.text text)
  | boolean {text : String} : text = "#t" ∨ text = "#f" → Spelling .boolean (.text text)
  | symbol {text : String} : Tag.ofKeyword? text = none → Spelling .symbol (.text text)
  | keyword {tag : Tag} {text : String} : Tag.ofKeyword? text = some tag → Spelling tag (.text text)
  | operator {char : Char} : isOperatorChar char = true → Spelling .operator (.operator char)
  | lparen : Spelling .lparen (.text "(")
  | rparen : Spelling .rparen (.text ")")
  | dot : Spelling .dot (.text ".")
  | quote : Spelling .quote (.text "'")
  | quasiquote : Spelling .quasiquote (.text "\x60")
  | unquote : Spelling .unquote (.text ",")
  | splice : Spelling .splice (.text ",@")

/-- A token has a text that its tag admits. -/
def Spelled (t : Token) : Prop :=
  Spelling t.tag t.payload

theorem Spelling.not_eof {payload : Payload} (h : Spelling .eof payload) : False := by
  cases h with
  | keyword hkeyword => cases Tag.keyword_of_ofKeyword? hkeyword

theorem Spelling.lparen_text {payload : Payload} (h : Spelling .lparen payload) :
    payload = .text "(" := by
  cases h with
  | keyword hkeyword => cases Tag.keyword_of_ofKeyword? hkeyword
  | lparen => rfl

theorem Spelling.rparen_text {payload : Payload} (h : Spelling .rparen payload) :
    payload = .text ")" := by
  cases h with
  | keyword hkeyword => cases Tag.keyword_of_ofKeyword? hkeyword
  | rparen => rfl

theorem label_spelling (text : String) :
    Spelling ((Tag.ofKeyword? text).getD .symbol) (.text text) := by
  cases h : Tag.ofKeyword? text with
  | none => exact .symbol h
  | some tag => exact .keyword h

end Token

namespace Cursor

@[simp] theorem ahead_advance (c : Cursor) : c.advance.ahead = c.ahead.tail := by
  obtain ⟨before, _ | ⟨char, ahead⟩, place, h⟩ := c <;> rfl

@[simp] theorem ahead_skip (c : Cursor) (n : Nat) : (c.skip n).ahead = c.ahead.drop n := by
  induction n generalizing c with
  | zero => rfl
  | succ n ih => rw [skip, ih, ahead_advance, ← List.drop_one, List.drop_drop, Nat.add_comm]

theorem ahead_ne_nil {c : Cursor} (h : c.current ≠ endMark) : c.ahead ≠ [] := by
  intro hnil
  rw [current, hnil] at h
  exact h rfl

/-- Characters that are passed over are taken from those ahead. -/
theorem length_takeWhile (p : Char → Bool) (c : Cursor) :
    (c.takeWhile p).1.length + (c.takeWhile p).2.ahead.length = c.ahead.length := by
  have hwhole := congrArg List.length (List.takeWhile_append_dropWhile (p := p) (l := c.ahead))
  rw [List.length_append] at hwhole
  change (c.ahead.takeWhile p).length + (c.skip (c.ahead.takeWhile p).length).ahead.length = _
  rw [ahead_skip, List.length_drop]
  omega

theorem length_takeWhile_le (p : Char → Bool) (c : Cursor) :
    (c.takeWhile p).1.length ≤ c.ahead.length :=
  Nat.le.intro (c.length_takeWhile p)

theorem length_pos {c : Cursor} (h : c.current ≠ endMark) : 0 < c.ahead.length :=
  List.length_pos_iff.mpr (ahead_ne_nil h)

/-- What a scanned token is, and how far it takes the cursor. Only strings and characters
are written otherwise than they are spelled. -/
structure Scanned (c : Cursor) (t : Token) (after : Cursor) : Prop where
  spelled : t.Spelled
  moved : ∃ n, after = c.advance.skip n
  room : t.tag ≠ .string → t.tag ≠ .character → ∀ text, t.payload.written = .ok text →
    text.length + after.ahead.length ≤ c.ahead.length

/-- A token of one character. -/
theorem scanned_single {c : Cursor} {tag : Tag} {payload : Payload} (char : Char)
    (hend : c.current ≠ endMark) (hspelled : Token.Spelling tag payload)
    (hwritten : payload.written = .ok (String.singleton char)) :
    Scanned c ⟨tag, payload, some c.place⟩ c.advance := by
  refine ⟨hspelled, ⟨0, rfl⟩, fun _ _ text htext => ?_⟩
  have hpos := length_pos hend
  obtain rfl : String.singleton char = text := by
    rw [hwritten] at htext
    cases htext
    rfl
  rw [ahead_advance, List.length_tail, String.length_singleton]
  omega

theorem scanNumber_scanned {c : Cursor} (hend : c.current ≠ endMark) :
    Scanned c c.scanNumber.1 c.scanNumber.2 := by
  refine ⟨.number _, ⟨_, rfl⟩, fun _ _ text htext => ?_⟩
  have hpos := length_pos hend
  have htaken := c.advance.length_takeWhile isNumberChar
  rw [ahead_advance, List.length_tail] at htaken
  cases htext
  change (String.ofList (_ :: (c.advance.takeWhile isNumberChar).1)).length +
    (c.advance.takeWhile isNumberChar).2.ahead.length ≤ _
  rw [String.length_ofList, List.length_cons]
  omega

theorem scanLabel_scanned {c : Cursor} (hend : c.current ≠ endMark)
    (hlabel : isLabelChar c.current = true) : Scanned c c.scanLabel.1 c.scanLabel.2 := by
  obtain ⟨char, rest, hahead⟩ := List.exists_cons_of_ne_nil (ahead_ne_nil hend)
  have hchar : isLabelChar char = true := by simpa [current, hahead] using hlabel
  refine ⟨Token.label_spelling _, ⟨(rest.takeWhile isLabelChar).length, ?_⟩,
    fun _ _ text htext => ?_⟩
  · simp [scanLabel, takeWhile, hahead, hchar, skip]
  · cases htext
    rw [scanLabel, String.length_ofList]
    exact Nat.le_of_eq (c.length_takeWhile isLabelChar)

theorem scanString_scanned {c after : Cursor} {t : Token} (h : c.scanString = (.ok t, after)) :
    Scanned c t after := by
  unfold scanString at h
  obtain ⟨htoken, hafter⟩ := Prod.mk.inj h
  split at htoken
  · cases htoken
    exact ⟨.string _, ⟨_, hafter.symm⟩, fun hstring => absurd rfl hstring⟩
  · cases htoken

theorem scanCharacter_scanned {c after : Cursor} {t : Token}
    (h : c.scanCharacter = (.ok t, after)) : Scanned c t after := by
  unfold scanCharacter at h
  dsimp only at h
  split at h
  · cases h
  -- the name is one character or some letters, and both start after the mark
  obtain ⟨name, n, hname⟩ : ∃ (name : List Char) (n : Nat),
      (if Text.isLetter c.advance.advance.current = true then
        c.advance.advance.takeWhile Text.isLetter
      else ([c.advance.advance.current], c.advance.advance.advance)) =
        (name, c.advance.skip n) := by
    split
    · exact ⟨_, _ + 1, rfl⟩
    · exact ⟨_, 2, rfl⟩
  rw [hname] at h
  dsimp only at h
  split at h
  · cases h
    exact ⟨.character _, ⟨n, rfl⟩, fun _ hcharacter => absurd rfl hcharacter⟩
  · split at h
    · cases h
      exact ⟨.character _, ⟨n, rfl⟩, fun _ hcharacter => absurd rfl hcharacter⟩
    · cases h

theorem scanHash_scanned {c after : Cursor} {t : Token} (hend : c.current ≠ endMark)
    (h : c.scanHash = (.ok t, after)) : Scanned c t after := by
  unfold scanHash at h
  split at h
  · exact scanCharacter_scanned h
  · dsimp only at h
    split at h
    · rename_i htruth
      rw [Bool.or_eq_true, decide_eq_true_eq, decide_eq_true_eq] at htruth
      cases h
      refine ⟨.boolean htruth, ⟨_, rfl⟩, fun _ _ text htext => ?_⟩
      have hpos := length_pos hend
      have htaken := c.advance.length_takeWhile Text.isLetter
      rw [ahead_advance, List.length_tail] at htaken
      cases htext
      rw [String.length_ofList, List.length_cons]
      omega
    · cases h

/-- The splice mark has a character after its first one. -/
theorem splice_scanned {c : Cursor} (hnext : c.next = '@') :
    Scanned c (c.token .splice ",@") c.advance.advance := by
  refine ⟨.splice, ⟨1, rfl⟩, fun _ _ text htext => ?_⟩
  have hlength : 1 < c.ahead.length := by
    refine Nat.lt_of_not_le fun hshort => ?_
    rw [next, List.drop_eq_nil_of_le hshort] at hnext
    exact absurd hnext (by decide)
  cases htext
  change 2 + c.advance.advance.ahead.length ≤ _
  rw [ahead_advance, ahead_advance, List.length_tail, List.length_tail]
  omega

/-- The token at a cursor is the end and leaves the cursor there, or it takes up some
characters. -/
theorem scanHere_cases {c after : Cursor} {t : Token} (h : c.scanHere = (.ok t, after)) :
    (c.current = endMark ∧ t = c.token .eof "EOF" ∧ after = c) ∨
      (c.current ≠ endMark ∧ Scanned c t after) := by
  unfold scanHere at h
  dsimp only at h
  obtain ⟨hend, h⟩ | ⟨hend, h⟩ := ite_eq_iff.mp h
  · cases h
    exact Or.inl ⟨hend, rfl, rfl⟩
  refine Or.inr ⟨hend, ?_⟩
  obtain ⟨-, h⟩ | ⟨-, h⟩ := ite_eq_iff.mp h
  · cases h
    exact scanNumber_scanned hend
  obtain ⟨hoperator, h⟩ | ⟨-, h⟩ := ite_eq_iff.mp h
  · cases h
    exact scanned_single _ hend (.operator (Bool.and_eq_true_iff.mp hoperator).1) rfl
  obtain ⟨-, h⟩ | ⟨-, h⟩ := ite_eq_iff.mp h
  · cases h
    exact scanned_single '.' hend .dot rfl
  obtain ⟨hlabel, h⟩ | ⟨-, h⟩ := ite_eq_iff.mp h
  · cases h
    refine scanLabel_scanned hend ?_
    rw [isLabelChar, Text.isWord]
    revert hlabel
    cases Text.isLetter c.current <;> simp +contextual
  obtain ⟨-, h⟩ | ⟨-, h⟩ := ite_eq_iff.mp h
  · exact scanString_scanned h
  obtain ⟨-, h⟩ | ⟨-, h⟩ := ite_eq_iff.mp h
  · exact scanHash_scanned hend h
  obtain ⟨-, h⟩ | ⟨-, h⟩ := ite_eq_iff.mp h
  · cases h
    exact scanned_single '(' hend .lparen rfl
  obtain ⟨-, h⟩ | ⟨-, h⟩ := ite_eq_iff.mp h
  · cases h
    exact scanned_single ')' hend .rparen rfl
  obtain ⟨-, h⟩ | ⟨-, h⟩ := ite_eq_iff.mp h
  · cases h
    exact scanned_single '\x27' hend .quote rfl
  obtain ⟨-, h⟩ | ⟨-, h⟩ := ite_eq_iff.mp h
  · cases h
    exact scanned_single '\x60' hend .quasiquote rfl
  obtain ⟨-, h⟩ | ⟨-, h⟩ := ite_eq_iff.mp h
  · obtain ⟨hnext, h⟩ | ⟨-, h⟩ := ite_eq_iff.mp h
    · cases h
      exact splice_scanned hnext
    · cases h
      exact scanned_single ',' hend .unquote rfl
  · cases h

/-- A token other than the end is behind the cursor afterwards. -/
theorem scan_shorter {c after : Cursor} {t : Token} (h : c.scan = (.ok t, after))
    (heof : t.tag ≠ .eof) : after.ahead.length < c.ahead.length := by
  have hskip : c.skipTrivia.ahead.length ≤ c.ahead.length := by
    rw [skipTrivia, ahead_skip, List.length_drop]
    omega
  obtain ⟨-, rfl, -⟩ | ⟨hend, hscanned⟩ := scanHere_cases h
  · exact absurd rfl heof
  · obtain ⟨n, rfl⟩ := hscanned.moved
    have hpos := length_pos hend
    rw [ahead_skip, ahead_advance, List.length_drop, List.length_tail]
    omega

/-- A token that is spelled as all that is ahead leaves nothing ahead. -/
theorem scan_whole {c after : Cursor} {t : Token} {text : String} (h : c.scan = (.ok t, after))
    (htag : t.tag ≠ .eof ∧ t.tag ≠ .string ∧ t.tag ≠ .character)
    (hwritten : t.payload.written = .ok text) (hahead : c.ahead = text.toList) :
    after.ahead = [] := by
  obtain ⟨heof, hstring, hcharacter⟩ := htag
  obtain ⟨-, rfl, -⟩ | ⟨-, hscanned⟩ := scanHere_cases h
  · exact absurd rfl heof
  · have hroom := hscanned.room hstring hcharacter text hwritten
    rw [skipTrivia, ahead_skip, List.length_drop, hahead, String.length_toList] at hroom
    exact List.length_eq_zero_iff.mp (by omega)

end Cursor

namespace Tokens

@[simp] theorem toList_prepend (reversed : List Token) (rest : Tokens) :
    (prepend reversed rest).toList = reversed.reverse ++ rest.toList := by
  unfold prepend
  induction reversed generalizing rest with
  | nil => rfl
  | cons token others ih => simp [ih, toList]

@[simp] theorem ending_prepend (reversed : List Token) (rest : Tokens) :
    (prepend reversed rest).ending = rest.ending := by
  unfold prepend
  induction reversed generalizing rest with
  | nil => rfl
  | cons token others ih => simp [ih, ending]

theorem prepend_append (others reversed : List Token) (rest : Tokens) :
    prepend (others ++ reversed) rest = prepend reversed (prepend others rest) := by
  rw [prepend, prepend, prepend, List.foldl_append]

/-- Tokens that were found before stand in front of those that are found. -/
theorem scanLoop_eq (fuel : Nat) (c : Cursor) (reversed : List Token) :
    scanLoop fuel c reversed = prepend reversed (scanLoop fuel c []) := by
  induction fuel generalizing c reversed with
  | zero => rfl
  | succ fuel ih =>
    rw [scanLoop, scanLoop]
    split
    · rfl
    · split
      · rfl
      · rename_i token after hscan heof
        rw [ih after (token :: reversed), ih after [token], ← prepend_append]
        rfl

example (t : Token) : scanLoop 1 (.start []) [t] =
    .more t (.done ((Cursor.start []).token .eof "EOF")) := by cbv

/-- Steps beyond those that a text needs change nothing. -/
theorem scanLoop_fuel {n m : Nat} {c : Cursor} (hn : c.ahead.length < n) (hm : c.ahead.length < m) :
    scanLoop n c [] = scanLoop m c [] := by
  induction n generalizing m c with
  | zero => omega
  | succ n ih =>
    obtain ⟨m, rfl⟩ : ∃ k, m = k + 1 := ⟨m - 1, by omega⟩
    rw [scanLoop, scanLoop]
    split
    · rfl
    · split
      · rfl
      · rename_i token after hscan heof
        have hshorter := Cursor.scan_shorter hscan heof
        have hrest : scanLoop n after [] = scanLoop m after [] := ih (by omega) (by omega)
        rw [scanLoop_eq n, scanLoop_eq m, hrest]

theorem ofCursor_more {c after : Cursor} {t : Token} (h : c.scan = (.ok t, after))
    (heof : t.tag ≠ .eof) : ofCursor c = .more t (ofCursor after) := by
  have hshorter := Cursor.scan_shorter h heof
  have hrest : scanLoop c.ahead.length after [] = ofCursor after :=
    scanLoop_fuel (by omega) (by omega)
  rw [ofCursor, scanLoop, h]
  simp only [heof, if_false]
  rw [scanLoop_eq, hrest]
  rfl

theorem ofCursor_done {c after : Cursor} {t : Token} (h : c.scan = (.ok t, after))
    (heof : t.tag = .eof) : ofCursor c = .done t := by
  rw [ofCursor, scanLoop, h]
  simp only [heof, if_true]
  rfl

theorem ofCursor_broken {c after : Cursor} {fault : Fault} (h : c.scan = (.error fault, after)) :
    ofCursor c = .broken fault := by
  rw [ofCursor, scanLoop, h]
  rfl

theorem scan_of_ofCursor_more {c : Cursor} {t : Token} {rest : Tokens}
    (h : ofCursor c = .more t rest) : ∃ after, c.scan = (.ok t, after) := by
  obtain ⟨scanned, after, hscan⟩ : ∃ scanned after, c.scan = (scanned, after) := ⟨_, _, rfl⟩
  cases scanned with
  | error fault =>
    rw [ofCursor_broken hscan] at h
    cases h
  | ok token =>
    by_cases heof : token.tag = .eof
    · rw [ofCursor_done hscan heof] at h
      cases h
    · rw [ofCursor_more hscan heof] at h
      cases h
      exact ⟨after, hscan⟩

/-- What holds of every token that is scanned holds of the tokens of a text. -/
theorem ofCursor_forall {P : Token → Prop}
    (h : ∀ {c after : Cursor} {t : Token}, c.scan = (.ok t, after) → t.tag ≠ .eof → P t)
    (c : Cursor) : ∀ t ∈ (ofCursor c).toList, P t := by
  induction hlength : c.ahead.length using Nat.strongRecOn generalizing c with
  | ind n ih =>
    obtain ⟨scanned, after, hscan⟩ : ∃ scanned after, c.scan = (scanned, after) := ⟨_, _, rfl⟩
    cases scanned with
    | error fault =>
      rw [ofCursor_broken hscan]
      exact List.forall_mem_nil P
    | ok token =>
      by_cases heof : token.tag = .eof
      · rw [ofCursor_done hscan heof]
        exact List.forall_mem_nil P
      · have hshorter := Cursor.scan_shorter hscan heof
        rw [ofCursor_more hscan heof, toList, List.forall_mem_cons]
        exact ⟨h hscan heof, ih _ (by omega) after rfl⟩

/-- The tokens of a text have the texts that their tags admit. -/
theorem ofCursor_spelled (c : Cursor) : ∀ t ∈ (ofCursor c).toList, t.Spelled := by
  refine ofCursor_forall ?_ c
  intro c after t hscan heof
  obtain ⟨-, rfl, -⟩ | ⟨-, hscanned⟩ := Cursor.scanHere_cases hscan
  · exact absurd rfl heof
  · exact hscanned.spelled

theorem withinLoop_cases (limit : Nat) (whole tokens : Tokens) (opened quotes : Nat)
    (reversed : List Token) (hreversed : ∀ t ∈ reversed, t ∈ whole.toList)
    (htokens : ∀ t ∈ tokens.toList, t ∈ whole.toList) :
    withinLoop limit whole opened quotes reversed tokens = whole ∨
      ∃ cut, withinLoop limit whole opened quotes reversed tokens = prepend cut (broken .tooDeep) ∧
        ∀ t ∈ cut, t ∈ whole.toList := by
  induction tokens generalizing opened quotes reversed with
  | done eof => exact Or.inl rfl
  | broken fault => exact Or.inl rfl
  | more token rest ih =>
    rw [toList, List.forall_mem_cons] at htokens
    rw [withinLoop]
    generalize (if token.tag = .lparen then opened + 1
      else if token.tag = .rparen then opened - 1 else opened) = opened
    generalize (if token.isPrefix then quotes + 1 else 0) = quotes
    split
    · exact Or.inr ⟨reversed, rfl, hreversed⟩
    · exact ih _ _ _ (List.forall_mem_cons.mpr ⟨htokens.1, hreversed⟩) htokens.2

/-- Tokens either nest within a limit or break off. -/
theorem within_cases (limit : Nat) (tokens : Tokens) :
    tokens.within limit = tokens ∨
      ∃ cut, tokens.within limit = prepend cut (broken .tooDeep) ∧ ∀ t ∈ cut, t ∈ tokens.toList :=
  withinLoop_cases limit tokens tokens 0 0 [] (List.forall_mem_nil _) fun _ ht => ht

theorem withinLoop_of_room {limit : Nat} (whole tokens : Tokens) (opened quotes : Nat)
    (reversed : List Token) (h : opened + quotes + tokens.length ≤ limit) :
    withinLoop limit whole opened quotes reversed tokens = whole := by
  induction tokens generalizing opened quotes reversed with
  | done eof => rfl
  | broken fault => rfl
  | more token rest ih =>
    rw [length] at h
    -- a token opens a parenthesis or quotes, but not both
    have hmarked : token.isPrefix = true → token.tag ≠ .lparen := by
      intro hmarked htag
      rw [Token.isPrefix, htag] at hmarked
      cases hmarked
    have hdepth : (if token.tag = .lparen then opened + 1
        else if token.tag = .rparen then opened - 1 else opened) +
        (if token.isPrefix then quotes + 1 else 0) ≤ opened + quotes + 1 := by
      grind
    rw [withinLoop, if_neg (by omega)]
    exact ih _ _ _ (by omega)

/-- Tokens nest at most as deep as there are tokens. -/
theorem within_of_length_le {limit : Nat} {tokens : Tokens} (h : tokens.length ≤ limit) :
    tokens.within limit = tokens :=
  withinLoop_of_room tokens tokens 0 0 [] (by omega)

end Tokens

end TowerLisp
