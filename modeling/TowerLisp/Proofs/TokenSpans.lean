import TowerLisp.Proofs.TextJoining

/-!
Where tokens stand. Scanning moves one cursor through a text. Each token takes up a piece of the
text that starts at the token's place and ends at the cursor behind it, and between two tokens
there are blanks and comments only. The pieces, apart from those of strings and characters, are
the texts of the tokens. Indices and places of a text correspond, in the same order.
-/

namespace TowerLisp

namespace Place

/-- An earlier line, or an earlier column of the same line. -/
def Precedes (p q : Place) : Prop :=
  p.line < q.line ∨ p.line = q.line ∧ p.column < q.column

theorem Precedes.trans {p q r : Place} (hpq : p.Precedes q) (hqr : q.Precedes r) :
    p.Precedes r := by
  unfold Precedes at *
  omega

theorem precedes_after (p : Place) (c : Char) : p.Precedes (p.after c) := by
  rw [after]
  split
  · exact .inl (Nat.lt_succ_self _)
  · exact .inr ⟨rfl, Nat.lt_succ_self _⟩

/-- A text that is not empty leads to a later place. -/
theorem precedes_afterAll (p : Place) (c : Char) (text : List Char) :
    p.Precedes (p.afterAll (c :: text)) := by
  induction text generalizing p c with
  | nil => exact precedes_after p c
  | cons d text ih => exact (precedes_after p c).trans (ih (p.after c) d)

theorem afterAll_append (p : Place) (text more : List Char) :
    p.afterAll (text ++ more) = (p.afterAll text).afterAll more :=
  List.foldl_append

end Place

/-- Blanks and comments, each of which runs from a semicolon to the end of its line. -/
inductive Text.Trivia : List Char → Prop where
  | nil : Trivia []
  | blank {c : Char} {rest : List Char} : isBlank c = true → Trivia rest → Trivia (c :: rest)
  | comment {line rest : List Char} : '\n' ∉ line → Trivia rest →
      Trivia (';' :: line ++ '\n' :: rest)

/-- What is passed over in front of a character that starts a token. Within a comment, the rest of
its line comes first. -/
theorem trivia_take (inComment : Bool) (cs : List Char)
    (h : (cs.drop (triviaLength inComment 0 cs)).headD Cursor.endMark ≠ Cursor.endMark) :
    ∃ line rest, cs.take (triviaLength inComment 0 cs) = line ++ rest ∧ Text.Trivia rest ∧
      if inComment then ∃ front, line = front ++ ['\n'] ∧ '\n' ∉ front else line = [] := by
  induction cs generalizing inComment with
  | nil => exact absurd rfl h
  | cons c cs ih =>
    have hnewline : Text.isBlank '\n' = true := by decide
    cases inComment with
    | true =>
      by_cases hend : c = Cursor.endMark
      · subst hend
        exact absurd rfl h
      have hlength : triviaLength true 0 (c :: cs) = triviaLength (c != '\n') 0 cs + 1 := by
        rw [triviaLength, if_pos rfl, if_neg hend, triviaLength_add]
      rw [hlength] at h ⊢
      by_cases hline : c = '\n'
      · subst hline
        obtain ⟨_, rest, htake, hrest, rfl⟩ := ih _ h
        exact ⟨['\n'], rest, congrArg _ htake, hrest, [], rfl, List.not_mem_nil⟩
      · have hmore : (c != '\n') = true := by simpa using hline
        rw [hmore] at h ⊢
        obtain ⟨line, rest, htake, hrest, front, rfl, hfront⟩ := ih _ h
        refine ⟨c :: front ++ ['\n'], rest, congrArg _ htake, hrest, c :: front, rfl, ?_⟩
        rw [List.mem_cons, not_or]
        exact ⟨Ne.symm hline, hfront⟩
    | false =>
      by_cases hblank : Text.isBlank c = true
      · have hlength : triviaLength false 0 (c :: cs) = triviaLength false 0 cs + 1 := by
          rw [triviaLength, if_neg (by decide), if_pos hblank, triviaLength_add]
        rw [hlength] at h ⊢
        obtain ⟨_, rest, htake, hrest, rfl⟩ := ih _ h
        exact ⟨[], c :: rest, congrArg _ htake, .blank hblank hrest, rfl⟩
      · by_cases hcomment : c = ';'
        · subst hcomment
          have hlength : triviaLength false 0 (';' :: cs) = triviaLength true 0 cs + 1 := by
            rw [triviaLength, if_neg (by decide), if_neg hblank, if_pos rfl, triviaLength_add]
          rw [hlength] at h ⊢
          obtain ⟨_, rest, htake, hrest, front, rfl, hfront⟩ := ih _ h
          refine ⟨[], ';' :: front ++ '\n' :: rest, ?_, .comment hfront hrest, rfl⟩
          rw [List.take_succ_cons, htake]
          simp
        · have hlength : triviaLength false 0 (c :: cs) = 0 := by
            rw [triviaLength, if_neg (by decide), if_neg hblank, if_neg hcomment]
          rw [hlength]
          exact ⟨[], [], rfl, .nil, rfl⟩

namespace Cursor

theorem position_le (c : Cursor) : c.position ≤ c.source.length := by
  rw [source, List.length_append, List.length_reverse]
  exact Nat.le_add_right _ _

theorem drop_position (c : Cursor) : c.source.drop c.position = c.ahead :=
  List.drop_left' (List.length_reverse ..)

theorem take_position (c : Cursor) : c.source.take c.position = c.before.reverse :=
  List.take_left' (List.length_reverse ..)

/-- A cursor moves over a piece of its text. -/
structure Passes (c : Cursor) (word : List Char) (d : Cursor) : Prop where
  ahead : c.ahead = word ++ d.ahead
  before : d.before = word.reverse ++ c.before

theorem passes_skip (c : Cursor) (n : Nat) : c.Passes (c.ahead.take n) (c.skip n) where
  ahead := by rw [ahead_skip, List.take_append_drop]
  before := before_skip c n

namespace Passes

variable {c d : Cursor} {word : List Char}

theorem position_eq (h : c.Passes word d) : d.position = c.position + word.length := by
  rw [position, position, h.before, List.length_append, List.length_reverse, Nat.add_comm]

theorem source_eq (h : c.Passes word d) : d.source = c.source := by
  simp [source, h.ahead, h.before]

/-- The piece stands between the indices of the two cursors. -/
theorem extract_eq (h : c.Passes word d) : c.source.extract c.position d.position = word := by
  have hdrop : c.source.drop c.position = word ++ d.ahead := c.drop_position.trans h.ahead
  rw [List.extract_eq_take_drop, hdrop, h.position_eq, Nat.add_sub_cancel_left, List.take_left' rfl]

end Passes

theorem ahead_eq_cons {c : Cursor} (h : c.current ≠ endMark) :
    c.ahead = c.current :: c.advance.ahead := by
  obtain ⟨char, rest, hahead⟩ := List.exists_cons_of_ne_nil (ahead_ne_nil h)
  rw [ahead_advance, current, hahead]
  rfl

theorem next_eq (c : Cursor) : c.next = c.advance.current := by
  rw [next, current, ahead_advance, List.drop_one]

theorem takeWhile_append (p : Char → Bool) (c : Cursor) :
    (c.takeWhile p).1 ++ (c.takeWhile p).2.ahead = c.ahead := by
  change c.ahead.takeWhile p ++ (c.skip (c.ahead.takeWhile p).length).ahead = c.ahead
  rw [ahead_skip]
  exact List.prefix_iff_eq_append.mp (List.takeWhile_prefix p)

end Cursor

/-- What a text that is not a token starts with, by what is said of it. -/
inductive SyntaxIssue.BreaksAt : SyntaxIssue → List Char → Prop where
  | unterminatedString {rest : List Char} : (stringBody [] 0 rest).closed = false →
      BreaksAt .unterminatedString ('"' :: rest)
  | incompleteCharacter {rest : List Char} : rest.headD Cursor.endMark = Cursor.endMark →
      BreaksAt .incompleteCharacter ('#' :: '\\' :: rest)
  | unknownCharacterName {name rest : List Char} : 1 < name.length →
      namedChar? (String.ofList name) = none →
      BreaksAt (.unknownCharacterName (String.ofList name)) ('#' :: '\\' :: name ++ rest)
  | unknownToken {letters rest : List Char} : letters ≠ ['t'] → letters ≠ ['f'] →
      BreaksAt (.unknownToken (String.ofList ('#' :: letters))) ('#' :: letters ++ rest)
  | unexpectedCharacter {c : Char} {rest : List Char} : c ≠ Cursor.endMark →
      Text.isLetter c = false → isLabelMark c = false →
      BreaksAt (.unexpectedCharacter (Text.shown [c])) (c :: rest)

namespace Cursor

/-- What has been scanned stands ahead of the cursor: a token by its text, unless it is the end, a
string or a character, and a fault by what the text breaks off at. -/
structure Accounts (c : Cursor) (r : Except Fault Token × Cursor) : Prop where
  token : ∀ t, r.1 = .ok t → t.tag ≠ .eof → t.tag ≠ .string → t.tag ≠ .character →
    ∃ word, t.payload.written = .ok (String.ofList word) ∧ c.ahead = word ++ r.2.ahead
  fault : ∀ fault, r.1 = .error fault → ∃ issue, fault = c.fault issue ∧ issue.BreaksAt c.ahead

variable {c after : Cursor}

theorem Accounts.ite {p : Prop} [Decidable p] {r s : Except Fault Token × Cursor}
    (hr : p → c.Accounts r) (hs : ¬ p → c.Accounts s) : c.Accounts (if p then r else s) := by
  split
  · exact hr ‹_›
  · exact hs ‹_›

theorem accounts_word (word : List Char) {tag : Tag} {payload : Payload} {place : Option Place}
    (hword : payload.written = .ok (String.ofList word)) (hahead : c.ahead = word ++ after.ahead) :
    c.Accounts (.ok ⟨tag, payload, place⟩, after) := by
  refine ⟨?_, by rintro fault ⟨⟩⟩
  rintro t ⟨⟩ - - -
  exact ⟨word, hword, hahead⟩

/-- A token of one character. -/
theorem accounts_single {char : Char} (hend : c.current ≠ endMark) (hchar : c.current = char)
    {tag : Tag} {payload : Payload} {place : Option Place}
    (hword : payload.written = .ok (String.singleton char)) :
    c.Accounts (.ok ⟨tag, payload, place⟩, c.advance) :=
  accounts_word [char] hword (hchar ▸ ahead_eq_cons hend)

/-- A token that is not compared with its text. -/
theorem accounts_other {tag : Tag} (h : tag = .eof ∨ tag = .string ∨ tag = .character)
    (payload : Payload) (place : Option Place) (after : Cursor) :
    c.Accounts (.ok ⟨tag, payload, place⟩, after) := by
  refine ⟨?_, by rintro fault ⟨⟩⟩
  rintro t ⟨⟩ heof hstring hcharacter
  exact absurd h (by simp [heof, hstring, hcharacter])

theorem accounts_fault {issue : SyntaxIssue} (h : issue.BreaksAt c.ahead) :
    c.Accounts (.error (c.fault issue), after) := by
  refine ⟨by rintro t ⟨⟩, ?_⟩
  rintro fault ⟨⟩
  exact ⟨issue, rfl, h⟩

theorem scanNumber_accounts (hend : c.current ≠ endMark) :
    c.Accounts (.ok c.scanNumber.1, c.scanNumber.2) := by
  refine accounts_word (c.current :: (c.advance.takeWhile isNumberChar).1) rfl ?_
  change _ = c.current :: ((c.advance.takeWhile isNumberChar).1 ++
    (c.advance.takeWhile isNumberChar).2.ahead)
  rw [takeWhile_append]
  exact ahead_eq_cons hend

theorem scanLabel_accounts : c.Accounts (.ok c.scanLabel.1, c.scanLabel.2) :=
  accounts_word (c.takeWhile isLabelChar).1 rfl (takeWhile_append isLabelChar c).symm

theorem scanString_accounts (hchar : c.current = '"') : c.Accounts c.scanString := by
  have hahead := ahead_eq_cons (c := c) (by rw [hchar]; decide)
  rw [hchar] at hahead
  unfold scanString
  dsimp only
  split
  · exact accounts_other (by simp) _ _ _
  · refine accounts_fault ?_
    rw [hahead]
    exact .unterminatedString (Bool.eq_false_iff.mpr ‹_›)

theorem scanCharacter_accounts (hchar : c.current = '#') (hnext : c.next = '\\') :
    c.Accounts c.scanCharacter := by
  have hahead : c.ahead = '#' :: '\\' :: c.advance.advance.ahead := by
    rw [ahead_eq_cons (c := c) (by rw [hchar]; decide), hchar]
    rw [next_eq] at hnext
    rw [ahead_eq_cons (c := c.advance) (by rw [hnext]; decide), hnext]
  unfold scanCharacter
  dsimp only
  refine .ite (fun hend => accounts_fault ?_) fun hend => ?_
  · rw [hahead]
    exact .incompleteCharacter hend
  refine .ite (fun _ => accounts_other (by simp) _ _ _) fun hlong => ?_
  split
  · exact accounts_other (by simp) _ _ _
  · rename_i hname
    refine accounts_fault ?_
    -- only a name of letters is longer than one character
    by_cases hletter : Text.isLetter c.advance.advance.current = true
    · rw [if_pos hletter] at hlong hname ⊢
      rw [hahead, ← takeWhile_append Text.isLetter c.advance.advance]
      exact .unknownCharacterName (Nat.lt_of_not_le hlong) hname
    · rw [if_neg hletter] at hlong
      exact absurd (Nat.le_refl 1) hlong

theorem scanHash_accounts (hchar : c.current = '#') : c.Accounts c.scanHash := by
  have hahead : c.ahead = '#' :: ((c.advance.takeWhile Text.isLetter).1 ++
      (c.advance.takeWhile Text.isLetter).2.ahead) := by
    rw [takeWhile_append, ahead_eq_cons (c := c) (by rw [hchar]; decide), hchar]
  unfold scanHash
  refine .ite (scanCharacter_accounts hchar) fun _ => .ite (fun _ => ?_) fun hother => ?_
  · exact accounts_word _ rfl hahead
  · refine accounts_fault ?_
    rw [hahead]
    rw [Bool.or_eq_true, decide_eq_true_eq, decide_eq_true_eq, not_or] at hother
    refine .unknownToken ?_ ?_
    · intro hletters
      exact hother.1 (by rw [hletters])
    · intro hletters
      exact hother.2 (by rw [hletters])

theorem scanHere_accounts (c : Cursor) : c.Accounts c.scanHere := by
  unfold scanHere
  refine .ite (fun _ => accounts_other (by simp) _ _ _) fun hend => ?_
  refine .ite (fun _ => scanNumber_accounts hend) fun _ => ?_
  refine .ite (fun _ => accounts_single hend rfl rfl) fun _ => ?_
  refine .ite (fun hdot => ?_) fun _ => ?_
  · rw [Bool.and_eq_true, decide_eq_true_eq] at hdot
    exact accounts_single hend hdot.1 rfl
  refine .ite (fun _ => scanLabel_accounts) fun hlabel => ?_
  refine .ite scanString_accounts fun _ => .ite scanHash_accounts fun _ => ?_
  refine .ite (fun h => accounts_single hend h rfl) fun _ => ?_
  refine .ite (fun h => accounts_single hend h rfl) fun _ => ?_
  refine .ite (fun h => accounts_single hend h rfl) fun _ => ?_
  refine .ite (fun h => accounts_single hend h rfl) fun _ => ?_
  refine .ite (fun h => .ite (fun hnext => ?_) fun _ => accounts_single hend h rfl) fun _ => ?_
  · have hend' : c.advance.current ≠ endMark := by
      rw [← next_eq, hnext]
      decide
    refine accounts_word [',', '@'] rfl ?_
    rw [ahead_eq_cons hend, ahead_eq_cons hend', h, ← next_eq, hnext]
    rfl
  · refine accounts_fault ?_
    rw [ahead_eq_cons hend]
    rw [Bool.or_eq_true, not_or, Bool.not_eq_true, Bool.not_eq_true] at hlabel
    exact .unexpectedCharacter hend hlabel.1 hlabel.2

/-- The cursor past the next `n` tokens. -/
def past (c : Cursor) : Nat → Cursor
  | 0 => c
  | n + 1 => c.scan.2.past n

/-- A token that is not the end takes up a piece of the text behind some blanks and comments. -/
structure Spans (c : Cursor) (t : Token) (after : Cursor) (gap word : List Char) : Prop where
  skipped : c.Passes gap c.skipTrivia
  trivia : Text.Trivia gap
  place : t.place = some c.skipTrivia.place
  passed : c.skipTrivia.Passes word after
  ne_nil : word ≠ []
  written : t.tag ≠ .string → t.tag ≠ .character → t.payload.written = .ok (String.ofList word)

theorem Passes.eq_of_append {c d : Cursor} {word word' : List Char} (h : c.Passes word d)
    (h' : c.ahead = word' ++ d.ahead) : word = word' :=
  List.append_cancel_right (h.ahead.symm.trans h')

theorem exists_spans {c after : Cursor} {t : Token} (h : c.scan = (.ok t, after))
    (heof : t.tag ≠ .eof) : ∃ gap word, c.Spans t after gap word := by
  obtain ⟨-, rfl, -⟩ | ⟨hend, hscanned⟩ := scanHere_cases h
  · exact absurd rfl heof
  obtain ⟨n, hafter⟩ := hscanned.moved
  have hpassed : c.skipTrivia.Passes (c.skipTrivia.ahead.take (n + 1)) after :=
    hafter ▸ passes_skip c.skipTrivia (n + 1)
  have hahead := ahead_eq_cons hend
  obtain ⟨line, rest, htake, hrest, rfl⟩ := trivia_take false c.ahead (by
    rwa [skipTrivia, current, ahead_skip] at hend)
  refine ⟨rest, _, ?_, hrest, ?_, hpassed, ?_, fun hstring hcharacter => ?_⟩
  · rw [List.nil_append] at htake
    exact htake ▸ passes_skip c _
  · exact (scanHere_putsAt c.skipTrivia).1 t (congrArg Prod.fst h)
  · rw [hahead]
    exact List.cons_ne_nil _ _
  · obtain ⟨word, hword, hsplit⟩ :=
      (scanHere_accounts c.skipTrivia).token t (congrArg Prod.fst h) heof hstring hcharacter
    have hsnd : c.skipTrivia.scanHere.2 = after := congrArg Prod.snd h
    rw [hsnd] at hsplit
    rw [hpassed.eq_of_append hsplit, hword]

namespace Spans

variable {c after : Cursor} {t : Token} {gap word : List Char}

theorem source_skipTrivia (h : c.Spans t after gap word) : c.skipTrivia.source = c.source :=
  h.skipped.source_eq

theorem source_after (h : c.Spans t after gap word) : after.source = c.source :=
  h.passed.source_eq.trans h.source_skipTrivia

theorem place_eq (h : c.Spans t after gap word) :
    t.place = some (c.placeOf c.skipTrivia.position) := by
  rw [h.place, place_eq_placeOf, placeOf, placeOf, h.source_skipTrivia]

theorem indices (h : c.Spans t after gap word) : c.position ≤ c.skipTrivia.position ∧
    c.skipTrivia.position < after.position ∧ after.position ≤ c.source.length := by
  have hfirst := h.skipped.position_eq
  have hlast := h.passed.position_eq
  have hpos := List.length_pos_iff.mpr h.ne_nil
  exact ⟨by omega, by omega, h.source_after ▸ after.position_le⟩

theorem extract_gap (h : c.Spans t after gap word) :
    c.source.extract c.position c.skipTrivia.position = gap :=
  h.skipped.extract_eq

theorem extract_word (h : c.Spans t after gap word) :
    c.source.extract c.skipTrivia.position after.position = word := by
  rw [← h.source_skipTrivia]
  exact h.passed.extract_eq

end Spans

end Cursor

namespace Tokens

/-- The first token ahead of a cursor. -/
theorem exists_scan_of_ne_nil {c : Cursor} (h : (ofCursor c).toList ≠ []) :
    ∃ t after, c.scan = (.ok t, after) ∧ t.tag ≠ .eof ∧
      (ofCursor c).toList = t :: (ofCursor after).toList := by
  obtain ⟨scanned, after, hscan⟩ : ∃ scanned after, c.scan = (scanned, after) := ⟨_, _, rfl⟩
  cases scanned with
  | error fault =>
    rw [ofCursor_broken hscan] at h
    exact absurd rfl h
  | ok t =>
    by_cases heof : t.tag = .eof
    · rw [ofCursor_done hscan heof] at h
      exact absurd rfl h
    · exact ⟨t, after, hscan, heof, by rw [ofCursor_more hscan heof, toList]⟩

/-- The tokens of a text are those that scanning gives one after another. -/
theorem scan_past {c : Cursor} {n : Nat} {t : Token} (h : (ofCursor c).toList[n]? = some t) :
    (c.past n).scan = (.ok t, c.past (n + 1)) ∧ t.tag ≠ .eof ∧ (c.past n).source = c.source := by
  induction n generalizing c with
  | zero =>
    obtain ⟨first, after, hscan, heof, htokens⟩ := exists_scan_of_ne_nil (c := c) fun hnil => by
      rw [hnil] at h
      cases h
    rw [htokens] at h
    cases h
    exact ⟨by rw [Cursor.past, Cursor.past, Cursor.past, hscan], heof, rfl⟩
  | succ n ih =>
    obtain ⟨first, after, hscan, heof, htokens⟩ := exists_scan_of_ne_nil (c := c) fun hnil => by
      rw [hnil] at h
      cases h
    obtain ⟨_, _, hspans⟩ := Cursor.exists_spans hscan heof
    have hpast : ∀ m, c.past (m + 1) = after.past m := fun m => by rw [Cursor.past, hscan]
    rw [htokens, List.getElem?_cons_succ] at h
    rw [hpast, hpast, ← hspans.source_after]
    exact ih h

end Tokens

/-- Places of a text follow each other as their indices do. -/
theorem Place.precedes_placeOf (c : Cursor) {i j : Nat} (hij : i < j) (hj : j ≤ c.source.length) :
    (c.placeOf i).Precedes (c.placeOf j) := by
  obtain ⟨char, more, hmore⟩ : ∃ char more, (c.source.take j).drop i = char :: more := by
    refine List.exists_cons_of_ne_nil fun hnil => ?_
    have hlength := congrArg List.length hnil
    rw [List.length_drop, List.length_take, List.length_nil] at hlength
    omega
  have htake : c.source.take j = c.source.take i ++ char :: more := by
    calc c.source.take j = (c.source.take j).take i ++ (c.source.take j).drop i :=
          (List.take_append_drop ..).symm
      _ = c.source.take i ++ char :: more := by
          rw [hmore, List.take_take, Nat.min_eq_left (Nat.le_of_lt hij)]
  rw [Cursor.placeOf, Cursor.placeOf, htake, afterAll_append]
  exact precedes_afterAll _ char more

/-- The tokens of a text lie in it one behind the other. The token behind `n` others starts at the
index that its place denotes, at or behind the end of the tokens before it, and ends behind its
start, where the cursor is after it. In front of it there are blanks and comments only, and it
is spelled as the piece of the text that it takes up, unless it is a string or a character.
Different indices of a text have different places, later ones for later indices. -/
theorem tokens_lie_in_text (source : List Char) :
    (∀ (n : Nat) (t : Token), (Tokens.ofSource source).toList[n]? = some t → ∃ first : Nat,
      let text := Cursor.start source
      let last := (text.past (n + 1)).position
      (text.past n).scan = (.ok t, text.past (n + 1)) ∧ t.place = some (text.placeOf first) ∧
        (text.past n).position ≤ first ∧ first < last ∧ last ≤ source.length ∧
        Text.Trivia (source.extract (text.past n).position first) ∧
        (t.tag ≠ .string → t.tag ≠ .character →
          t.payload.written = .ok (String.ofList (source.extract first last)))) ∧
      ∀ i j, i < j → j ≤ source.length →
        ((Cursor.start source).placeOf i).Precedes ((Cursor.start source).placeOf j) := by
  refine ⟨fun n t ht => ?_, fun i j hij hj => Place.precedes_placeOf _ hij hj⟩
  obtain ⟨hscan, heof, hsource⟩ := Tokens.scan_past ht
  obtain ⟨gap, word, hspans⟩ := Cursor.exists_spans hscan heof
  have hplace := hspans.place_eq
  have hgap := hspans.extract_gap
  have hword := hspans.extract_word
  obtain ⟨hfirst, hlast, hlength⟩ := hspans.indices
  rw [Cursor.placeOf, hsource] at hplace
  rw [hsource, Cursor.source_start] at hgap hword hlength
  refine ⟨_, hscan, hplace, hfirst, hlast, hlength, hgap ▸ hspans.trivia, ?_⟩
  intro hstring hcharacter
  rw [hspans.written hstring hcharacter, hword]

end TowerLisp
