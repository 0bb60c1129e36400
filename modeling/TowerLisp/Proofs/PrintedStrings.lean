import TowerLisp.Proofs.Lexing
import TowerLisp.Value.Printer

/-!
Printed strings are decoded to what they were printed from, by the scanner of literals and by the
decoder of escapes alike. Only a string that holds the end mark cannot be scanned: its literal
breaks off at the mark.
-/

namespace TowerLisp

namespace Text

theorem unescape_plain {c : Char} (hc : c ≠ '\\') (rest : List Char) :
    unescape (c :: rest) = c :: unescape rest := by
  rw [unescape] <;> simp [hc]

/-- An escape letter that starts neither a code nor a number. -/
theorem unescape_letter {c : Char} (hcode : c ≠ 'u') (hnumber : c ≠ '0') (rest : List Char) :
    unescape ('\\' :: c :: rest) = unescapeChar c :: unescape rest := by
  rw [unescape] <;> simp [hcode, hnumber]

/-- A printed character is decoded to that character. No escape of the printer starts a code, so
what follows it does not matter. -/
theorem unescape_escapeChar (c : Char) (rest : List Char) :
    unescape (escapeChar c ++ rest) = c :: unescape rest := by
  unfold escapeChar
  split
  · exact unescape_letter (by decide) (by decide) rest
  · exact unescape_letter (by decide) (by decide) rest
  · exact unescape_letter (by decide) (by decide) rest
  · exact unescape_letter (by decide) (by decide) rest
  · exact unescape_letter (by decide) (by decide) rest
  · exact unescape_plain ‹_› rest

theorem unescape_escape (cs : List Char) : unescape (escape cs) = cs := by
  induction cs with
  | nil => rfl
  | cons c cs ih =>
    change unescape (escapeChar c ++ escape cs) = c :: cs
    rw [unescape_escapeChar, ih]

end Text

theorem stringBody_endMark (text : List Char) (n : Nat) (rest : List Char) :
    stringBody text n (Cursor.endMark :: rest) = ⟨text.reverse, n, false⟩ := by
  rw [stringBody] <;> simp [Cursor.endMark]

/-- A string with the end mark in it is printed as a literal without an end. -/
theorem stringBody_escape_open {cs : List Char} (hcs : Cursor.endMark ∈ cs) (text : List Char)
    (n : Nat) (rest : List Char) : (stringBody text n (Text.escape cs ++ rest)).closed = false := by
  obtain ⟨front, back, rfl, hfront⟩ := List.eq_append_cons_of_mem hcs
  have hsplit : Text.escape (front ++ Cursor.endMark :: back) =
      Text.escape front ++ Cursor.endMark :: Text.escape back := List.flatMap_append
  rw [hsplit, List.append_assoc, stringBody_escape_append hfront, List.cons_append,
    stringBody_endMark]

/-- What is scanned at an opening quote. -/
theorem scan_openingQuote {c : Cursor} {rest : List Char} (h : c.ahead = '"' :: rest) :
    c.scan = c.scanString := by
  rw [Cursor.scan, Cursor.skipTrivia_of_start h (by decide) (by decide),
    Cursor.scanHere_mark (current_of_ahead h) (by decide) (by decide) (by decide) (by decide)
      (by decide) (by decide) (by decide), if_pos rfl]

namespace Tokens

/-- The literal of a string is all that a printed string holds. -/
theorem ofSource_quoted {cs : List Char} (hcs : Cursor.endMark ∉ cs) :
    ofSource (Text.quoted cs) = .more ⟨.string, .text (String.ofList cs), some .first⟩
      (.done ⟨.eof, .text "EOF", some (Place.first.afterAll (Text.quoted cs))⟩) := by
  let c := Cursor.start (Text.quoted cs)
  have hbody : stringBody [] 0 c.advance.ahead = ⟨cs, (Text.escape cs).length + 1, true⟩ := by
    have hread := stringBody_escape hcs [] 0 []
    rwa [Nat.zero_add] at hread
  let after := c.advance.skip ((Text.escape cs).length + 1)
  have hscan : c.scan = (.ok ⟨.string, .text (String.ofList cs), some .first⟩, after) := by
    rw [scan_openingQuote rfl, Cursor.scanString, hbody]
    rfl
  have hahead : after.ahead = [] := by
    rw [Cursor.ahead_skip]
    change (Text.escape cs ++ ['"']).drop _ = []
    rw [List.drop_eq_nil_of_le (by simp)]
  have hplace : after.place = Place.first.afterAll (Text.quoted cs) := by
    have hsource : after.source = Text.quoted cs := by simp [after, c]
    have hbefore : after.before = (Text.quoted cs).reverse := by
      rw [← hsource, Cursor.source, hahead, List.append_nil, List.reverse_reverse]
    rw [after.place_eq, hbefore, Place.behind_reverse]
  have heof : Tag.string ≠ .eof := by decide
  change ofCursor c = _
  rw [ofCursor_more hscan heof, ofCursor_end hahead, Cursor.token, hplace]

theorem ofSource_quoted_broken {cs : List Char} (hcs : Cursor.endMark ∈ cs) :
    ofSource (Text.quoted cs) = .broken (.malformed .unterminatedString (some .first)) := by
  let c := Cursor.start (Text.quoted cs)
  have hbody : (stringBody [] 0 c.advance.ahead).closed = false :=
    stringBody_escape_open hcs [] 0 ['"']
  have hscan : c.scan = (.error (.malformed .unterminatedString (some .first)),
      c.advance.skip (stringBody [] 0 c.advance.ahead).length) := by
    rw [scan_openingQuote rfl, Cursor.scanString]
    simp only [hbody]
    rfl
  exact ofCursor_broken hscan

end Tokens

/-- A printed string stands between quotes, and what stands between them is decoded to the string.
The printed text is scanned as the literal of the string, up to the end of the text, unless the
string holds the end mark, which no literal may hold. -/
theorem printed_string_decoded (store : Store) (text : String) : ∃ inner : List Char,
    (Value.string text).printed store = .ok (String.ofList ('"' :: inner ++ ['"'])) ∧
      Text.unescape inner = text.toList ∧
      Tokens.ofSource ('"' :: inner ++ ['"']) =
        if Cursor.endMark ∈ text.toList then
          .broken (.malformed .unterminatedString (some .first))
        else
          .more ⟨.string, .text text, some .first⟩
            (.done ⟨.eof, .text "EOF", some (Place.first.afterAll ('"' :: inner ++ ['"']))⟩) := by
  refine ⟨Text.escape text.toList, rfl, Text.unescape_escape text.toList, ?_⟩
  split
  · exact Tokens.ofSource_quoted_broken ‹_›
  · have hscanned := Tokens.ofSource_quoted ‹_›
    rwa [String.ofList_toList] at hscanned

end TowerLisp
