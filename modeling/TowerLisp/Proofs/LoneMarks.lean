import Mathlib.Data.List.Chain
import TowerLisp.Proofs.PrintedWords
import TowerLisp.Proofs.TokenSpans

/-!
Dots and operator characters where a token starts. The next character tells what becomes of
them. A delimiter makes them a token of their own, and a character of labels makes them part of a
longer label or number; no character is both. What is neither leaves a symbol of one
character. In a text that goes on, that is a hash in front of a truth value or a character: any
other character of this kind starts no token.
-/

namespace TowerLisp

namespace Text.Ranges

/-- A number in a table lies in one of its ranges. -/
theorem exists_of_contains {table : Ranges} {n : Nat} (h : table.contains n = true) :
    ∃ range ∈ table, range.1 ≤ n ∧ n ≤ range.2 := by
  induction table with
  | nil => cases h
  | cons range rest ih =>
    rw [contains] at h
    split at h
    · exact ⟨range, List.mem_cons_self, of_decide_eq_true h, ‹_›⟩
    · obtain ⟨found, hmem, hfound⟩ := ih h
      exact ⟨found, List.mem_cons_of_mem _ hmem, hfound⟩

/-- A range that is not empty stands behind another one. -/
def Behind (p q : Nat × Nat) : Prop :=
  p.2 < q.1 ∧ q.1 ≤ q.2

instance : DecidableRel Behind :=
  fun p q => inferInstanceAs (Decidable (p.2 < q.1 ∧ q.1 ≤ q.2))

instance : Trans Behind Behind Behind :=
  ⟨fun hpq hqr => ⟨hpq.1.trans (hpq.2.trans_lt hqr.1), hqr.2⟩⟩

/-- The ranges of a sorted table are in it. -/
theorem contains_of_mem {table : Ranges} (hsorted : table.IsChain Behind)
    {range : Nat × Nat} (hmem : range ∈ table) {n : Nat} (hlow : range.1 ≤ n)
    (hhigh : n ≤ range.2) : table.contains n = true := by
  rw [List.isChain_iff_pairwise] at hsorted
  induction hsorted with
  | nil => cases hmem
  | @cons first rest hfirst _ ih =>
    rw [contains]
    obtain rfl | hmem := List.mem_cons.mp hmem
    · rw [if_pos hhigh]
      exact decide_eq_true hlow
    · have hbehind : first.2 < n := (hfirst range hmem).1.trans_le hlow
      rw [if_neg hbehind.not_ge]
      exact ih hmem

/-- All ranges of a table lie in ranges of another one. -/
def within (table others : Ranges) : Bool :=
  table.all fun p => others.any fun q => q.1.ble p.1 && p.2.ble q.2

theorem contains_of_within {table others : Ranges} (hwithin : table.within others = true)
    (hsorted : others.IsChain Behind) {n : Nat} (h : table.contains n = true) :
    others.contains n = true := by
  obtain ⟨p, hp, hlow, hhigh⟩ := exists_of_contains h
  obtain ⟨q, hq, hinside⟩ := List.any_eq_true.mp (List.all_eq_true.mp hwithin p hp)
  rw [Bool.and_eq_true, Nat.ble_eq, Nat.ble_eq] at hinside
  exact contains_of_mem hsorted hq (hinside.1.trans hlow) (hhigh.trans hinside.2)

/-- No range of a table meets a range of another one. -/
def apart (table others : Ranges) : Bool :=
  table.all fun p => others.all fun q => p.2.blt q.1 || q.2.blt p.1

theorem contains_eq_false_of_apart {table others : Ranges} (hapart : table.apart others = true)
    {n : Nat} (h : table.contains n = true) : others.contains n = false := by
  rw [Bool.eq_false_iff]
  intro hother
  obtain ⟨p, hp, hlow, hhigh⟩ := exists_of_contains h
  obtain ⟨q, hq, hlow', hhigh'⟩ := exists_of_contains hother
  have hsides := List.all_eq_true.mp (List.all_eq_true.mp hapart p hp) q hq
  rw [Bool.or_eq_true, Nat.blt_eq, Nat.blt_eq] at hsides
  omega

end Text.Ranges

open Text

/-- Digits are numeric. -/
theorem Text.isNumeric_of_isDigit {c : Char} (h : isDigit c = true) : isNumeric c = true := by
  have hwithin : digitRanges.within numericRanges = true := by
    decide +kernel
  have hsorted : numericRanges.IsChain Ranges.Behind := by
    decide +kernel
  exact Ranges.contains_of_within hwithin hsorted h

theorem Text.isWord_of_isBlank {c : Char} (h : isBlank c = true) : isWord c = false := by
  have hletters : blankRanges.apart letterRanges = true := by
    decide +kernel
  have hnumerics : blankRanges.apart numericRanges = true := by
    decide +kernel
  have hletter : isLetter c = false := Ranges.contains_eq_false_of_apart hletters h
  have hnumeric : isNumeric c = false := Ranges.contains_eq_false_of_apart hnumerics h
  rw [isWord, hletter, hnumeric, Bool.or_false]

theorem isLabelChar_of_isDigit {c : Char} (h : isDigit c = true) : isLabelChar c = true := by
  rw [isLabelChar, isWord, isNumeric_of_isDigit h, Bool.or_true, Bool.true_or]

/-- No character both ends a label and may stand in one. -/
theorem isLabelChar_of_isDelimiter {c : Char} (h : isDelimiter c = true) :
    isLabelChar c = false := by
  have hmarks : ∀ m ∈ "()'\x60,\";".toList, isLabelChar m = false :=
    forall_mem_of_all (by decide)
  have hblanks : ∀ m ∈ "-+*%!?/|^&$\\:[]_=.<>".toList, isBlank m = false :=
    forall_mem_of_all (by decide)
  rw [isDelimiter, Bool.or_eq_true, Bool.or_eq_true] at h
  obtain (hend | hblank) | hmark := h
  · rw [eq_of_beq hend]
    decide
  · rw [isLabelChar, isWord_of_isBlank hblank, Bool.false_or, Bool.eq_false_iff]
    intro hlabel
    rw [hblanks c (List.contains_iff_mem.mp hlabel)] at hblank
    cases hblank
  · exact hmarks c (List.contains_iff_mem.mp hmark)

/-- A dot or an operator character. -/
def isLoneMark (c : Char) : Bool :=
  c = '.' || isOperatorChar c

theorem isLone_iff {name : String} :
    isLone name = true ↔ ∃ c, isLoneMark c = true ∧ name = String.singleton c := by
  rw [isLone]
  constructor
  · intro h
    split at h
    · rename_i c htext
      refine ⟨c, h, ?_⟩
      rw [← String.ofList_toList (s := name), htext, String.singleton_eq_ofList]
    · cases h
  · rintro ⟨c, hc, rfl⟩
    rw [String.toList_singleton]
    exact hc

/-- A mark may start a label, and nothing else that is longer than itself. -/
theorem label_of_isLoneMark {c : Char} (h : isLoneMark c = true) :
    c ≠ Cursor.endMark ∧ isDigit c = false ∧ isLabelMark c = true ∧
      Tag.ofKeyword? (String.singleton c) = none := by
  have hall : ∀ m ∈ '.' :: "+-*/%^=<>!:".toList, m ≠ Cursor.endMark ∧ isDigit m = false ∧
      isLabelMark m = true ∧ Tag.ofKeyword? (String.singleton m) = none :=
    forall_mem_of_all (by decide)
  refine hall c ?_
  rw [isLoneMark, Bool.or_eq_true, decide_eq_true_eq] at h
  exact List.mem_cons.mpr (h.imp_right List.contains_iff_mem.mp)

theorem isLabelChar_of_isLoneMark {c : Char} (h : isLoneMark c = true) : isLabelChar c = true := by
  rw [isLabelChar, (label_of_isLoneMark h).2.2.1, Bool.or_true]

theorem isLoneMark_eq_false {c : Char} (h : isLabelChar c = false) : isLoneMark c = false := by
  rw [Bool.eq_false_iff]
  intro hmark
  rw [isLabelChar_of_isLoneMark hmark] at h
  cases h

theorem isDigit_eq_false {c : Char} (h : isLabelChar c = false) : isDigit c = false := by
  rw [Bool.eq_false_iff]
  intro hdigit
  rw [isLabelChar_of_isDigit hdigit] at h
  cases h

/-- Labels are neither operators nor dots. -/
theorem tag_label (text : String) : (Tag.ofKeyword? text).getD .symbol ≠ .operator ∧
    (Tag.ofKeyword? text).getD .symbol ≠ .dot := by
  cases hkeyword : Tag.ofKeyword? text with
  | none => exact ⟨by decide, by decide⟩
  | some tag =>
    have hsome := Tag.keyword_of_ofKeyword? hkeyword
    constructor <;> (rintro rfl; cases hsome)

namespace Cursor

variable {c after : Cursor} {t : Token}

/-- The token that a dot or an operator character is by itself. -/
def loneToken (c : Cursor) : Token :=
  if c.current = '.' then ⟨.dot, .text ".", some c.place⟩
  else ⟨.operator, .operator c.current, some c.place⟩

theorem tag_loneToken (c : Cursor) : c.loneToken.tag = .operator ∨ c.loneToken.tag = .dot := by
  rw [loneToken]
  split
  · exact .inr rfl
  · exact .inl rfl

/-- A delimiter behind a mark makes it a token of its own. -/
theorem scanHere_delimited (hmark : isLoneMark c.current = true)
    (hnext : isDelimiter c.next = true) : c.scanHere = (.ok c.loneToken, c.advance) := by
  obtain ⟨hend, hdigit, -, -⟩ := label_of_isLoneMark hmark
  have hnumber : isDigit c.next = false := isDigit_eq_false (isLabelChar_of_isDelimiter hnext)
  unfold scanHere
  dsimp only
  rw [if_neg hend, if_neg (by simp [hdigit, hnumber]), hnext, Bool.and_true, Bool.and_true]
  by_cases hdot : c.current = '.'
  · rw [if_neg (by rw [hdot]; decide), if_pos (decide_eq_true hdot), loneToken, if_pos hdot]
  · have hoperator : isOperatorChar c.current = true := by
      rwa [isLoneMark, decide_eq_false hdot, Bool.false_or] at hmark
    rw [if_pos hoperator, loneToken, if_neg hdot]

/-- Without a delimiter behind it a mark starts a number or a label. -/
theorem scanHere_undelimited (hmark : isLoneMark c.current = true)
    (hnext : isDelimiter c.next = false) : c.scanHere =
      if (c.current = '+' ∨ c.current = '-') ∧ isDigit c.next = true then
        (.ok c.scanNumber.1, c.scanNumber.2)
      else (.ok c.scanLabel.1, c.scanLabel.2) := by
  obtain ⟨hend, hdigit, hlabel, -⟩ := label_of_isLoneMark hmark
  unfold scanHere
  dsimp only
  rw [if_neg hend, hdigit, hnext, hlabel, Bool.false_or, Bool.and_false, Bool.and_false,
    Bool.or_true, if_neg Bool.false_ne_true, if_neg Bool.false_ne_true, if_pos rfl]
  simp only [Bool.and_eq_true, Bool.or_eq_true, decide_eq_true_eq]

theorem ahead_of_isLabelChar (hmark : isLoneMark c.current = true)
    (hnext : isLabelChar c.next = true) :
    c.ahead = c.current :: c.next :: c.advance.advance.ahead := by
  have hend : c.advance.current ≠ endMark := by
    rw [← next_eq]
    intro hend
    rw [hend] at hnext
    exact absurd hnext (by decide)
  rw [ahead_eq_cons (label_of_isLoneMark hmark).1, ahead_eq_cons hend, next_eq]

/-- A mark in front of a character of labels is the first of several characters of a token, which
is a number or a label. -/
theorem scanHere_continued (hmark : isLoneMark c.current = true)
    (hnext : isLabelChar c.next = true) : ∃ tag rest after,
    c.scanHere = (.ok (c.token tag (String.ofList (c.current :: c.next :: rest))), after) ∧
      tag ≠ .operator ∧ tag ≠ .dot := by
  have hdelimiter : isDelimiter c.next = false := by
    rw [Bool.eq_false_iff]
    intro hdelimiter
    rw [isLabelChar_of_isDelimiter hdelimiter] at hnext
    cases hnext
  have hahead := ahead_of_isLabelChar hmark hnext
  rw [scanHere_undelimited hmark hdelimiter]
  split
  · rename_i hsign
    have hnumber : isNumberChar c.next = true := by rw [isNumberChar, hsign.2, Bool.true_or]
    have htaken : c.advance.ahead.takeWhile isNumberChar =
        c.next :: c.advance.advance.ahead.takeWhile isNumberChar := by
      rw [ahead_advance c, hahead, List.tail_cons, List.takeWhile_cons_of_pos hnumber]
    refine ⟨.number, c.advance.advance.ahead.takeWhile isNumberChar, c.scanNumber.2, ?_,
      by decide, by decide⟩
    rw [← htaken]
    rfl
  · have htaken : c.ahead.takeWhile isLabelChar =
        c.current :: c.next :: c.advance.advance.ahead.takeWhile isLabelChar := by
      rw [hahead, List.takeWhile_cons_of_pos (isLabelChar_of_isLoneMark hmark),
        List.takeWhile_cons_of_pos hnext]
    refine ⟨_, c.advance.advance.ahead.takeWhile isLabelChar, c.scanLabel.2, ?_,
      tag_label (String.ofList (c.ahead.takeWhile isLabelChar))⟩
    rw [← htaken]
    rfl

theorem takeWhile_ahead_nil {p : Char → Bool} (h : p c.current = false) :
    c.ahead.takeWhile p = [] := by
  cases hahead : c.ahead with
  | nil => rfl
  | cons char rest =>
    rw [current_of_ahead hahead] at h
    exact List.takeWhile_cons_of_neg (Bool.eq_false_iff.mp h)

/-- A mark behind which neither a delimiter nor a character of labels stands is a symbol. -/
theorem scanHere_alone (hmark : isLoneMark c.current = true)
    (hdelimiter : isDelimiter c.next = false) (hlabel : isLabelChar c.next = false) :
    c.scanHere = (.ok (c.token .symbol (String.singleton c.current)), c.advance) := by
  obtain ⟨hend, -, -, hkeyword⟩ := label_of_isLoneMark hmark
  have hnumber : ¬ ((c.current = '+' ∨ c.current = '-') ∧ isDigit c.next = true) := by
    rw [isDigit_eq_false hlabel]
    exact fun h => Bool.false_ne_true h.2
  have htaken : c.ahead.takeWhile isLabelChar = [c.current] := by
    rw [ahead_eq_cons hend, List.takeWhile_cons_of_pos (isLabelChar_of_isLoneMark hmark),
      takeWhile_ahead_nil]
    rwa [← next_eq]
  rw [scanHere_undelimited hmark hdelimiter, if_neg hnumber, scanLabel, takeWhile]
  dsimp only
  rw [htaken, ← String.singleton_eq_ofList, hkeyword]
  rfl

/-- What neither ends a label nor may stand in one is a hash, or it starts no token. -/
theorem scan_neither (hdelimiter : isDelimiter c.current = false)
    (hlabel : isLabelChar c.current = false) : c.current = '#' ∨
      c.scan.1 = .error (c.fault (.unexpectedCharacter (Text.shown [c.current]))) := by
  have hlone := isLoneMark_eq_false hlabel
  rw [isLoneMark, Bool.or_eq_false_iff, decide_eq_false_iff_not] at hlone
  have hdigit := isDigit_eq_false hlabel
  rw [isLabelChar, isWord, Bool.or_eq_false_iff, Bool.or_eq_false_iff] at hlabel
  rw [isDelimiter, Bool.or_eq_false_iff, Bool.or_eq_false_iff, beq_eq_false_iff_ne] at hdelimiter
  obtain ⟨⟨hend, hblank⟩, hmark⟩ := hdelimiter
  have hother : ∀ m ∈ "()'\x60,\";".toList, c.current ≠ m := by
    rintro m hm rfl
    rw [List.contains_iff_mem.mpr hm] at hmark
    cases hmark
  have hsign : c.current ≠ '+' ∧ c.current ≠ '-' := by
    constructor <;> (intro hsign; rw [hsign] at hlone; exact absurd hlone.2 (by decide))
  by_cases hhash : c.current = '#'
  · exact .inl hhash
  · refine .inr ?_
    rw [scan, skipTrivia_of_start (ahead_eq_cons hend) hblank (hother _ (by decide)),
      scanHere_mark rfl hend hdigit hsign hlone.2 hlone.1 hlabel.1.1 hlabel.2,
      if_neg (hother _ (by decide)), if_neg hhash, if_neg (hother _ (by decide)),
      if_neg (hother _ (by decide)), if_neg (hother _ (by decide)), if_neg (hother _ (by decide)),
      if_neg (hother _ (by decide))]

/-- The text of a token of one character is the current character. -/
theorem current_of_written {char : Char} (h : c.scanHere = (.ok t, after)) (heof : t.tag ≠ .eof)
    (hstring : t.tag ≠ .string) (hcharacter : t.tag ≠ .character)
    (hwritten : t.payload.written = .ok (String.singleton char)) : c.current = char := by
  obtain ⟨word, hword, hahead⟩ :=
    (scanHere_accounts c).token t (congrArg Prod.fst h) heof hstring hcharacter
  rw [hwritten, String.singleton_eq_ofList] at hword
  obtain rfl : [char] = word := String.ofList_injective (Except.ok.inj hword)
  exact current_of_ahead hahead

theorem isLoneMark_of_tag (h : c.scanHere = (.ok t, after))
    (htag : t.tag = .operator ∨ t.tag = .dot) : isLoneMark c.current = true := by
  obtain ⟨-, rfl, -⟩ | ⟨-, hscanned⟩ := scanHere_cases h
  · obtain htag | htag := htag <;> cases htag
  have hspelled := hscanned.spelled
  obtain ⟨tag, payload, place⟩ := t
  obtain rfl | rfl := htag
  · cases hspelled with
    | keyword hkeyword => cases Tag.keyword_of_ofKeyword? hkeyword
    | operator hchar =>
      rw [current_of_written h nofun nofun nofun rfl, isLoneMark, hchar,
        Bool.or_true]
  · cases hspelled with
    | keyword hkeyword => cases Tag.keyword_of_ofKeyword? hkeyword
    | dot =>
      have hcurrent : c.current = '.' := current_of_written h nofun nofun nofun rfl
      rw [hcurrent]
      decide

/-- Marks are tokens of their own in front of delimiters, and nothing else is an operator or a
dot. -/
theorem tag_eq_iff (h : c.scanHere = (.ok t, after)) : t.tag = .operator ∨ t.tag = .dot ↔
    isLoneMark c.current = true ∧ isDelimiter c.next = true := by
  constructor
  · intro htag
    have hmark := isLoneMark_of_tag h htag
    refine ⟨hmark, ?_⟩
    by_contra hnext
    rw [Bool.not_eq_true] at hnext
    cases hlabel : isLabelChar c.next with
    | true =>
      obtain ⟨tag, rest, last, hscan, hoperator, hdot⟩ := scanHere_continued hmark hlabel
      cases h.symm.trans hscan
      obtain htag | htag := htag
      · exact hoperator htag
      · exact hdot htag
    | false =>
      cases h.symm.trans (scanHere_alone hmark hnext hlabel)
      obtain htag | htag := htag <;> cases htag
  · rintro ⟨hmark, hnext⟩
    cases h.symm.trans (scanHere_delimited hmark hnext)
    exact tag_loneToken c

/-- Symbols of a single mark are scanned in front of what neither ends a label nor may stand in
one. -/
theorem symbol_isLone_iff (h : c.scanHere = (.ok t, after)) :
    (t.tag = .symbol ∧ ∃ name, t.payload = .text name ∧ isLone name = true) ↔
      isLoneMark c.current = true ∧ isDelimiter c.next = false ∧ isLabelChar c.next = false := by
  constructor
  · rintro ⟨htag, name, hname, hlone⟩
    obtain ⟨char, hchar, rfl⟩ := isLone_iff.mp hlone
    have hwritten : t.payload.written = .ok (String.singleton char) := by rw [hname]; rfl
    obtain rfl : c.current = char := current_of_written h (by rw [htag]; decide)
      (by rw [htag]; decide) (by rw [htag]; decide) hwritten
    cases hnext : isDelimiter c.next with
    | true =>
      cases h.symm.trans (scanHere_delimited hchar hnext)
      obtain htag' | htag' := tag_loneToken c <;> (rw [htag'] at htag; cases htag)
    | false =>
      refine ⟨hchar, rfl, ?_⟩
      rw [Bool.eq_false_iff]
      intro hlabel
      obtain ⟨tag, rest, last, hscan, -, -⟩ := scanHere_continued hchar hlabel
      cases h.symm.trans hscan
      have hlength := congrArg String.length (Payload.text.inj hname)
      rw [String.length_ofList, String.length_singleton, List.length_cons,
        List.length_cons] at hlength
      omega
  · rintro ⟨hmark, hnext, hlabel⟩
    cases h.symm.trans (scanHere_alone hmark hnext hlabel)
    exact ⟨rfl, _, rfl, isLone_iff.mpr ⟨_, hmark, rfl⟩⟩

/-- The characters ahead of a cursor by their indices. -/
theorem getD_source (c : Cursor) (k : Nat) :
    c.source.getD (c.position + k) endMark = (c.ahead.drop k).headD endMark := by
  rw [source, position, List.getD_eq_getElem?_getD, List.getElem?_append_right (by simp),
    List.length_reverse, Nat.add_sub_cancel_left, List.headD_eq_head?_getD, List.head?_drop]

theorem getD_position (c : Cursor) : c.source.getD c.position endMark = c.current :=
  c.getD_source 0

theorem getD_position_succ (c : Cursor) : c.source.getD (c.position + 1) endMark = c.next :=
  c.getD_source 1

theorem position_advance (hend : c.current ≠ endMark) : c.advance.position = c.position + 1 := by
  have hskip := (c.passes_skip 1).position_eq
  rw [ahead_eq_cons hend] at hskip
  exact hskip

end Cursor

namespace Tokens

/-- What follows the tokens of a text follows those that come after some of them. -/
theorem ending_past {c : Cursor} {n : Nat} {t : Token} (h : (ofCursor c).toList[n]? = some t) :
    (ofCursor c).ending = (ofCursor (c.past (n + 1))).ending := by
  induction n generalizing c with
  | zero =>
    obtain ⟨hscan, heof, -⟩ := scan_past h
    rw [Cursor.past] at hscan
    rw [ofCursor_more hscan heof, ending]
  | succ n ih =>
    obtain ⟨first, after, hscan, heof, htokens⟩ := exists_scan_of_ne_nil (c := c) fun hnil => by
      rw [hnil] at h
      cases h
    rw [htokens, List.getElem?_cons_succ] at h
    rw [ofCursor_more hscan heof, ending, ih h, Cursor.past.eq_def c, hscan]

end Tokens

/-- The token behind `n` others, by the character that it starts with and the one after that. It is
an operator or a dot if a delimiter follows a dot or an operator character, and only then. It is
a symbol of one dot or operator character if what follows may neither end a label nor stand in
one, and only then; that is a hash, or the text breaks off there. Before a character of labels a
dot or operator character is the first of several in a longer token. -/
theorem lone_marks_by_next (source : List Char) (n : Nat) (t : Token)
    (h : (Tokens.ofSource source).toList[n]? = some t) : ∃ first : Nat,
    let char := source.getD first Cursor.endMark
    let next := source.getD (first + 1) Cursor.endMark
    t.place = some ((Cursor.start source).placeOf first) ∧
      (t.tag = .operator ∨ t.tag = .dot ↔
        isLoneMark char = true ∧ isDelimiter next = true) ∧
      ((t.tag = .symbol ∧ ∃ name, t.payload = .text name ∧ isLone name = true) ↔
        isLoneMark char = true ∧ isDelimiter next = false ∧ isLabelChar next = false) ∧
      (isLoneMark char = true → isLabelChar next = true → ∃ rest,
        t.payload.written = .ok (String.ofList (char :: next :: rest))) ∧
      (isLoneMark char = true → isDelimiter next = false → isLabelChar next = false →
        next = '#' ∨ (Tokens.ofSource source).ending =
          .error (.malformed (.unexpectedCharacter (Text.shown [next]))
            (some ((Cursor.start source).placeOf (first + 1))))) := by
  obtain ⟨hscan, heof, hsource⟩ := Tokens.scan_past h
  obtain ⟨gap, word, hspans⟩ := Cursor.exists_spans hscan heof
  have hending := Tokens.ending_past h
  have hafter : ((Cursor.start source).past (n + 1)).source = source :=
    hspans.source_after.trans hsource
  generalize (Cursor.start source).past (n + 1) = after at *
  generalize (Cursor.start source).past n = c at *
  have htext : c.skipTrivia.source = source := hspans.source_skipTrivia.trans hsource
  refine ⟨c.skipTrivia.position, ?_⟩
  rw [← htext, Cursor.getD_position, Cursor.getD_position_succ]
  refine ⟨?_, Cursor.tag_eq_iff hscan, Cursor.symbol_isLone_iff hscan, ?_, ?_⟩
  · rw [hspans.place, Cursor.place_eq_placeOf]
    rfl
  · intro hmark hlabel
    obtain ⟨tag, rest, last, hlonger, -, -⟩ := Cursor.scanHere_continued hmark hlabel
    cases hscan.symm.trans hlonger
    exact ⟨rest, rfl⟩
  · intro hmark hdelimiter hlabel
    cases hscan.symm.trans (Cursor.scanHere_alone hmark hdelimiter hlabel)
    have hend := (label_of_isLoneMark hmark).1
    rw [Cursor.next_eq] at hdelimiter hlabel ⊢
    refine (Cursor.scan_neither hdelimiter hlabel).imp_right fun hfault => ?_
    calc (Tokens.ofSource c.skipTrivia.source).ending
        = (Tokens.ofCursor c.skipTrivia.advance).ending := by rw [htext]; exact hending
      _ = .error (c.skipTrivia.advance.fault _) := by
          rw [Tokens.ofCursor_broken (Prod.ext hfault rfl), Tokens.ending]
      _ = _ := by
          rw [Cursor.fault, Cursor.place_eq_placeOf, Cursor.position_advance hend, Cursor.placeOf,
            Cursor.source_advance]
          rfl

theorem lone_marks_by_next_sign :
    let source := "(+#t)".toList
    let t : Token := ⟨.symbol, .text "+", some ⟨1, 2⟩⟩
    (Tokens.ofSource source).toList[1]? = some t ∧ ∃ first : Nat,
      t.place = some ((Cursor.start source).placeOf first) ∧
        isLoneMark (source.getD first Cursor.endMark) = true ∧
        source.getD (first + 1) Cursor.endMark = '#' := by
  intro source t
  have htoken : (Tokens.ofSource source).toList[1]? = some t := by decide
  have hending : (Tokens.ofSource source).ending = .ok ⟨.eof, .text "EOF", some ⟨1, 6⟩⟩ := by
    decide
  obtain ⟨first, hplace, -, hsymbol, -, hhash⟩ := lone_marks_by_next source 1 t htoken
  obtain ⟨hmark, hdelimiter, hlabel⟩ := hsymbol.mp ⟨rfl, "+", rfl, by decide⟩
  refine ⟨htoken, first, hplace, hmark,
    (hhash hmark hdelimiter hlabel).resolve_right fun hbroken => ?_⟩
  rw [hending] at hbroken
  cases hbroken

/-- A dot in front of a hash is a symbol, though the hash starts a token of its own. -/
theorem dot_before_hash_symbol :
    (Tokens.ofSource "(1 .#t)".toList).toList.map Token.said =
      [(.lparen, .text "("), (.number, .text "1"), (.symbol, .text "."), (.boolean, .text "#t"),
        (.rparen, .text ")")] ∧ isLone "." = true := by
  decide

end TowerLisp
