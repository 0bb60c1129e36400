import TowerLisp.Proofs.Atoms

/-!
Printed values as words. `Writes` tells that a value is printed as a text that is split,
in front of a stop, into certain words. Names that were scanned in some text are split from
others in the same way when they are printed, except for a lone dot or operator character.
-/

namespace TowerLisp

namespace Token

/-- The token was scanned in some text. -/
def OfText (t : Token) : Prop :=
  t.tag ≠ .eof ∧ ∃ c after : Cursor, c.scan = (.ok t, after)

theorem OfText.spelled {t : Token} (h : t.OfText) : t.Spelled := by
  obtain ⟨heof, c, after, hscan⟩ := h
  obtain ⟨-, rfl, -⟩ | ⟨-, hscanned⟩ := Cursor.scanHere_cases hscan
  · exact absurd rfl heof
  · exact hscanned.spelled

end Token

theorem Tokens.ofCursor_ofText (c : Cursor) : ∀ t ∈ (ofCursor c).toList, t.OfText :=
  ofCursor_forall (fun hscan heof => ⟨heof, _, _, hscan⟩) c

/-- Names that are no symbol when they stand before a stop. -/
def isLone (name : String) : Bool :=
  match name.toList with
  | [c] => c = '.' || isOperatorChar c
  | _ => false

namespace Cursor

theorem scanString_ne_symbol {c after : Cursor} {t : Token} (h : c.scanString = (.ok t, after)) :
    t.tag ≠ .symbol := by
  unfold scanString at h
  obtain ⟨htoken, -⟩ := Prod.mk.inj h
  split at htoken
  · cases htoken
    exact nofun
  · cases htoken

theorem scanCharacter_ne_symbol {c after : Cursor} {t : Token}
    (h : c.scanCharacter = (.ok t, after)) : t.tag ≠ .symbol := by
  unfold scanCharacter at h
  dsimp only at h
  split at h
  · cases h
  generalize (if Text.isLetter c.advance.advance.current = true then
    c.advance.advance.takeWhile Text.isLetter
    else ([c.advance.advance.current], c.advance.advance.advance)) = found at h
  obtain ⟨name, last⟩ := found
  dsimp only at h
  split at h
  · cases h
    exact nofun
  split at h
  · cases h
    exact nofun
  · cases h

theorem scanHash_ne_symbol {c after : Cursor} {t : Token} (h : c.scanHash = (.ok t, after)) :
    t.tag ≠ .symbol := by
  unfold scanHash at h
  split at h
  · exact scanCharacter_ne_symbol h
  · dsimp only at h
    split at h
    · cases h
      exact nofun
    · cases h

/-- What starts a symbol. -/
structure StartsLabel (c : Cursor) : Prop where
  notEnd : c.current ≠ endMark
  notNumber :
    ¬ (Text.isDigit c.current ||
      ((c.current = '+' || c.current = '-') && Text.isDigit c.next)) = true
  notOperator : ¬ (isOperatorChar c.current && isDelimiter c.next) = true
  notDot : ¬ (c.current = '.' && isDelimiter c.next) = true
  label : (Text.isLetter c.current || isLabelMark c.current) = true

theorem StartsLabel.scanHere {c : Cursor} (h : c.StartsLabel) :
    c.scanHere = (.ok c.scanLabel.1, c.scanLabel.2) := by
  unfold Cursor.scanHere
  dsimp only
  rw [if_neg h.notEnd, if_neg h.notNumber, if_neg h.notOperator, if_neg h.notDot, if_pos h.label]

theorem startsLabel_of_symbol {c after : Cursor} {t : Token} (h : c.scanHere = (.ok t, after))
    (htag : t.tag = .symbol) : c.StartsLabel ∧ t = c.scanLabel.1 := by
  unfold Cursor.scanHere at h
  dsimp only at h
  obtain ⟨-, h⟩ | ⟨hend, h⟩ := ite_eq_iff.mp h
  · cases h
    cases htag
  obtain ⟨-, h⟩ | ⟨hnumber, h⟩ := ite_eq_iff.mp h
  · cases h
    cases htag
  obtain ⟨-, h⟩ | ⟨hoperator, h⟩ := ite_eq_iff.mp h
  · cases h
    cases htag
  obtain ⟨-, h⟩ | ⟨hdot, h⟩ := ite_eq_iff.mp h
  · cases h
    cases htag
  obtain ⟨hlabel, h⟩ | ⟨-, h⟩ := ite_eq_iff.mp h
  · cases h
    exact ⟨⟨hend, hnumber, hoperator, hdot, hlabel⟩, rfl⟩
  obtain ⟨-, h⟩ | ⟨-, h⟩ := ite_eq_iff.mp h
  · exact absurd htag (scanString_ne_symbol h)
  obtain ⟨-, h⟩ | ⟨-, h⟩ := ite_eq_iff.mp h
  · exact absurd htag (scanHash_ne_symbol h)
  -- the marks that are left have tags of their own
  split at h
  · cases h
    cases htag
  split at h
  · cases h
    cases htag
  split at h
  · cases h
    cases htag
  split at h
  · cases h
    cases htag
  split at h
  · split at h
    · cases h
      cases htag
    · cases h
      cases htag
  · cases h

/-- A label that is no lone dot or operator character starts one when it stands alone. -/
theorem StartsLabel.alone {c : Cursor} (h : c.StartsLabel)
    (hlone : isLone (String.ofList (c.ahead.takeWhile isLabelChar)) = false) :
    (start (c.ahead.takeWhile isLabelChar)).StartsLabel := by
  obtain ⟨char, rest, hahead⟩ := List.exists_cons_of_ne_nil (ahead_ne_nil h.notEnd)
  have hcurrent : c.current = char := current_of_ahead hahead
  have hchar : isLabelChar char = true := by
    have hlabel := h.label
    rw [hcurrent] at hlabel
    rw [isLabelChar, Text.isWord]
    revert hlabel
    cases Text.isLetter char <;> simp +contextual
  have htaken : c.ahead.takeWhile isLabelChar = char :: rest.takeWhile isLabelChar := by
    rw [hahead, List.takeWhile_cons_of_pos hchar]
  rw [htaken] at hlone ⊢
  have hstart : (start (char :: rest.takeWhile isLabelChar)).current = char := rfl
  obtain ⟨hend, hnumber, hoperator, hdot, hlabel⟩ := h
  rw [hcurrent] at hend hnumber hoperator hdot hlabel
  cases hothers : rest.takeWhile isLabelChar with
  | nil =>
    -- nothing follows, and the label is a single character
    rw [hothers] at hlone hstart
    simp only [isLone, String.toList_ofList, Bool.or_eq_false_iff, decide_eq_false_iff_not] at hlone
    have hdigit : Text.isDigit (start [char]).next = false :=
      (by decide : Text.isDigit endMark = false)
    refine ⟨hend, ?_, ?_, ?_, hlabel⟩
    · rw [hstart, hdigit, Bool.and_false, Bool.or_false]
      intro hfirst
      exact hnumber (by rw [hfirst, Bool.true_or])
    · rw [hstart, hlone.2, Bool.false_and]
      decide
    · rw [hstart, decide_eq_false hlone.1, Bool.false_and]
      decide
  | cons second others =>
    have hnext : c.next = second := by
      have hrest : rest ≠ [] := by
        rintro rfl
        cases hothers
      obtain ⟨head, tail, rfl⟩ := List.exists_cons_of_ne_nil hrest
      rw [List.takeWhile_cons] at hothers
      split at hothers
      · cases hothers
        rw [Cursor.next, hahead]
        rfl
      · cases hothers
    rw [hnext] at hnumber hoperator hdot
    exact ⟨hend, hnumber, hoperator, hdot, hlabel⟩

/-- Behind blanks and comments stands what is neither. -/
theorem triviaLength_stops {inComment : Bool} {cs rest : List Char} {char : Char}
    (h : cs.drop (triviaLength inComment 0 cs) = char :: rest) :
    char = endMark ∨ Text.isBlank char = false ∧ char ≠ ';' := by
  induction cs generalizing inComment with
  | nil => cases h
  | cons first cs ih =>
    rw [triviaLength] at h
    split at h
    · split at h
      · cases h
        exact Or.inl ‹_›
      · rw [triviaLength_add, List.drop_succ_cons] at h
        exact ih h
    · split at h
      · rw [triviaLength_add, List.drop_succ_cons] at h
        exact ih h
      split at h
      · rw [triviaLength_add, List.drop_succ_cons] at h
        exact ih h
      · rename_i hblank hmark
        cases h
        exact Or.inr ⟨by simpa using hblank, hmark⟩

end Cursor

theorem lexes_alone {text : List Char} {tag : Tag} {payload : Payload}
    (h : (Cursor.start text).scan =
      (.ok ⟨tag, payload, some .first⟩, (Cursor.start text).skip text.length))
    (heof : tag ≠ .eof) {rest : List Char} (hrest : Stops rest) :
    Lexes text rest [(tag, payload)] := by
  refine lexes_again h heof ?_ hrest
  rw [Cursor.ahead_skip]
  exact List.drop_length

/-- A symbol that was scanned in some text is scanned again when it is printed. -/
theorem Token.OfText.lexes_symbol {t : Token} (h : t.OfText) (htag : t.tag = .symbol)
    {name : String} (hname : t.payload = .text name) (hlone : isLone name = false)
    {rest : List Char} (hrest : Stops rest) : Lexes name.toList rest [(.symbol, .text name)] := by
  obtain ⟨-, c, after, hscan⟩ := h
  obtain ⟨hstarts, rfl⟩ := Cursor.startsLabel_of_symbol hscan htag
  cases hname
  have halone := hstarts.alone hlone
  obtain ⟨char, others, hahead⟩ := List.exists_cons_of_ne_nil (Cursor.ahead_ne_nil halone.notEnd)
  change c.skipTrivia.ahead.takeWhile isLabelChar = char :: others at hahead
  obtain ⟨more, hmore⟩ : ∃ more, c.skipTrivia.ahead = char :: more := by
    rw [← List.takeWhile_append_dropWhile (p := isLabelChar) (l := c.skipTrivia.ahead), hahead]
    exact ⟨_, rfl⟩
  have hchar : Text.isBlank char = false ∧ char ≠ ';' := by
    have hskipped := hmore
    rw [Cursor.skipTrivia, Cursor.ahead_skip] at hskipped
    obtain rfl | hchar := Cursor.triviaLength_stops hskipped
    · exact absurd (current_of_ahead hmore) hstarts.notEnd
    · exact hchar
  rw [hahead, String.toList_ofList]
  rw [hahead] at halone
  have hwhole : (char :: others).takeWhile isLabelChar = char :: others := by
    rw [← hahead, List.takeWhile_idem]
  have hkeyword : (Tag.ofKeyword? (String.ofList (char :: others))).getD .symbol = .symbol := by
    rw [← hahead]
    exact htag
  have hscan : (Cursor.start (char :: others)).scan =
      (.ok ⟨.symbol, .text (String.ofList (char :: others)), some .first⟩,
        (Cursor.start (char :: others)).skip (char :: others).length) := by
    rw [Cursor.scan, Cursor.skipTrivia_of_start rfl hchar.1 hchar.2, halone.scanHere,
      Cursor.scanLabel, Cursor.takeWhile]
    dsimp only [Cursor.start]
    rw [hwhole, hkeyword]
    rfl
  exact lexes_alone hscan (by decide) hrest

theorem lexes_keyword {word : String} {tag : Tag} (h : Tag.ofKeyword? word = some tag)
    {rest : List Char} (hrest : Stops rest) : Lexes word.toList rest [(tag, .text word)] := by
  unfold Tag.ofKeyword? at h
  split at h <;> cases h <;> exact lexes_alone (by rfl) (by decide) hrest

theorem Tag.ofKeyword?_of_keyword? {word : String} {tag : Tag} (h : tag.keyword? = some word) :
    ofKeyword? word = some tag := by
  cases tag <;> cases h <;> rfl

theorem lexes_boolean {text : String} (h : text = "#t" ∨ text = "#f") {rest : List Char}
    (hrest : Stops rest) : Lexes text.toList rest [(.boolean, .text text)] := by
  obtain rfl | rfl := h <;> exact lexes_alone (by rfl) (by decide) hrest

theorem lexes_operator {char : Char} (h : isOperatorChar char = true) {rest : List Char}
    (hrest : Stops rest) : Lexes [char] rest [(.operator, .operator char)] := by
  have hmem : char ∈ "+-*/%^=<>!:".toList := by simpa [isOperatorChar] using h
  simp only [String.reduceToList, List.mem_cons, List.not_mem_nil, or_false] at hmem
  rcases hmem with rfl | rfl | rfl | rfl | rfl | rfl | rfl | rfl | rfl | rfl | rfl <;>
    exact lexes_alone (by rfl) (by decide) hrest

namespace Value

/-- A value is printed as a text that is split into words in front of a stop. -/
def Writes (store : Store) (v : Value) (words : List (Tag × Payload)) : Prop :=
  ∃ text, v.printed store = .ok text ∧ ∀ rest, Stops rest → Lexes text.toList rest words

variable {store : Store}

theorem writes_nil : nil.Writes store [(.lparen, .text "("), (.rparen, .text ")")] :=
  ⟨"()", rfl, fun rest _ => (lexes_lparen (')' :: rest)).append (lexes_rparen rest)⟩

theorem writes_string {text : String} (h : Cursor.endMark ∉ text.toList) :
    (string text).Writes store [(.string, .text text)] :=
  ⟨_, (printsAs_string store h).printed, (printsAs_string store h).lexes⟩

theorem writes_number {n : Number} (hn : n.WellFormedExact) {text : String}
    (h : n.text = .ok text) : (number n).Writes store [(.number, .text text)] :=
  ⟨text, h, fun _ hrest => Number.lexes_text hn h hrest⟩

theorem writes_symbol {name : String} {word : Tag × Payload}
    (h : ∀ rest, Stops rest → Lexes name.toList rest [word]) :
    (symbol name).Writes store [word] :=
  ⟨name, rfl, h⟩

/-- The items of a list behind its first one, each with a blank in front of it. -/
theorem printedTail_list {items : List Value} {words : List (List (Tag × Payload))}
    (h : List.Forall₂ (Writes store) items words) : ∃ text : String,
      (∀ front, printedTail store front (.list items) = .ok (front ++ text)) ∧
      (∀ rest, Stops (text.toList ++ ')' :: rest)) ∧
      ∀ rest, Lexes text.toList (')' :: rest) words.flatten := by
  induction h with
  | nil =>
    refine ⟨"", fun front => ?_, stops_close, fun rest => lexes_nil (')' :: rest)⟩
    rw [String.append_empty]
    rfl
  | @cons item word items words hitem _ ih =>
    obtain ⟨first, hfirst, hlexes⟩ := hitem
    obtain ⟨others, hprinted, hstops, hothers⟩ := ih
    refine ⟨" " ++ first ++ others, fun front => ?_, fun rest => ?_, fun rest => ?_⟩
    · change printedTail store front (.pair item (.list items)) = _
      rw [printedTail, hfirst, ok_bind, hprinted]
      simp only [String.append_assoc]
    · rw [String.toList_append, String.toList_append]
      exact stops_blank _
    · rw [String.toList_append, String.toList_append]
      exact ((hlexes _ (hstops rest)).append (hothers rest)).blank

/-- A list is written as its items in parentheses. -/
theorem writes_list {items : List Value} {words : List (List (Tag × Payload))}
    (h : List.Forall₂ (Writes store) items words) :
    (list items).Writes store
      ((.lparen, .text "(") :: words.flatten ++ [(.rparen, .text ")")]) := by
  cases h with
  | nil => exact writes_nil
  | @cons item word items words hitem hitems =>
    obtain ⟨first, hfirst, hlexes⟩ := hitem
    obtain ⟨others, hprinted, hstops, hothers⟩ := printedTail_list hitems
    refine ⟨"(" ++ first ++ others ++ ")", ?_, fun rest _ => ?_⟩
    · change printed store (.pair item (.list items)) = _
      rw [printed, hfirst, ok_bind, hprinted]
      rfl
    · have hinner : Lexes (first.toList ++ others.toList) (')' :: rest) (word ++ words.flatten) :=
        (hlexes _ (hstops rest)).append (hothers rest)
      simp only [String.toList_append]
      exact ((lexes_lparen _).append hinner).append (lexes_rparen rest)

end Value

end TowerLisp
