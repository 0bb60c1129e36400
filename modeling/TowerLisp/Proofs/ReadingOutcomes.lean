import TowerLisp.Proofs.LimitRaising
import TowerLisp.Proofs.LiteralFaults
import TowerLisp.Proofs.ReadingBudgets
import TowerLisp.Proofs.TokenSpans

/-!
What the reading of a text ends in: its forms, or a fault at a place of the text. The reader blames
a token, and a text that cannot be split into tokens is blamed where it breaks off. The only other
fault is that of a decimal literal that is out of bounds.
-/

namespace TowerLisp

namespace Tokens

/-- Tokens are confined if each of them is, and what they break off with. -/
theorem confined_of {G : Fault → Prop} {tokens : Tokens}
    (htokens : ∀ t ∈ tokens.toList, t.Blames G)
    (hending : ∀ fault, tokens.ending = .error fault → G fault) : tokens.Confined G := by
  induction tokens with
  | done eof => exact .done eof
  | broken fault => exact .broken (hending fault rfl)
  | more token rest ih =>
    rw [toList, List.forall_mem_cons] at htokens
    exact .more htokens.1 (ih htokens.2 hending)

/-- A text breaks off behind its tokens, at what is no token. -/
theorem breaksAt_of_ending {c : Cursor} {fault : Fault} (h : (ofCursor c).ending = .error fault) :
    ∃ issue index, index = (c.past (ofCursor c).toList.length).skipTrivia.position ∧
      fault = .malformed issue (some (c.placeOf index)) ∧
      issue.BreaksAt (c.source.drop index) := by
  induction hlength : (ofCursor c).toList.length generalizing c with
  | zero =>
    obtain ⟨scanned, after, hscan⟩ : ∃ scanned after, c.scan = (scanned, after) := ⟨_, _, rfl⟩
    cases scanned with
    | ok t =>
      by_cases heof : t.tag = .eof
      · rw [ofCursor_done hscan heof] at h
        cases h
      · rw [ofCursor_more hscan heof] at hlength
        cases hlength
    | error found =>
      rw [ofCursor_broken hscan] at h
      cases h
      obtain ⟨issue, rfl, hbreaks⟩ :=
        (Cursor.scanHere_accounts c.skipTrivia).fault fault (congrArg Prod.fst hscan)
      have hsource : c.skipTrivia.source = c.source := (Cursor.passes_skip c _).source_eq
      have hahead : c.source.drop c.skipTrivia.position = c.skipTrivia.ahead := by
        rw [← hsource, Cursor.drop_position]
      refine ⟨issue, _, rfl, ?_, hahead ▸ hbreaks⟩
      rw [Cursor.fault, Cursor.place_eq_placeOf, Cursor.placeOf, Cursor.placeOf, hsource]
      rfl
  | succ n ih =>
    obtain ⟨t, after, hscan, heof, htokens⟩ := exists_scan_of_ne_nil (c := c) fun hnil => by
      rw [hnil] at hlength
      cases hlength
    obtain ⟨_, _, hspans⟩ := Cursor.exists_spans hscan heof
    rw [ofCursor_more hscan heof] at h
    rw [htokens, List.length_cons, Nat.succ.injEq] at hlength
    obtain ⟨issue, index, hindex, hfault, hbreaks⟩ := ih h hlength
    rw [Cursor.placeOf, hspans.source_after] at hfault
    rw [hspans.source_after] at hbreaks
    exact ⟨issue, index, by rw [hindex, Cursor.past, hscan], hfault, hbreaks⟩

end Tokens

namespace Reader

/-- Where a fault of reading is put: at the start of a token that the reader finds out of place, or
behind all tokens, at what is no token. -/
inductive PutsAt (source : List Char) : SyntaxIssue → Nat → Prop where
  | token {issue : SyntaxIssue} {n : Nat} {t : Token} : issue.ofReader = true →
      (Tokens.ofSource source).toList[n]? = some t →
      PutsAt source issue ((Cursor.start source).past n).skipTrivia.position
  | noToken {issue : SyntaxIssue} {index : Nat} :
      index = ((Cursor.start source).past
        (Tokens.ofSource source).toList.length).skipTrivia.position →
      issue.BreaksAt (source.drop index) → PutsAt source issue index

/-- A number among the tokens of a text holds a decimal literal whose value is too large. -/
def HoldsTooLarge (source : List Char) : Prop :=
  ∃ t ∈ (Tokens.ofSource source).toList, ∃ text literal, t.tag = .number ∧
    t.payload = .text text ∧ Number.Holds text.toList literal ∧ Number.TooLarge literal

/-- The faults that the reading of a text may end in. -/
inductive Refused (source : List Char) : Fault → Prop where
  | placed {issue : SyntaxIssue} {index : Nat} : PutsAt source issue index →
      Refused source (.malformed issue (some ((Cursor.start source).placeOf index)))
  | tooLarge : HoldsTooLarge source → Refused source (.breakdown .decimalOverflow)

/-- A token of a text is blamed at its start. -/
theorem blames_of_mem {source : List Char} {t : Token}
    (ht : t ∈ (Tokens.ofSource source).toList) : t.Blames (Refused source) where
  plain := (Tokens.ofCursor_spelled _ t ht).plain
  issue issue hissue := by
    obtain ⟨n, hn⟩ := List.mem_iff_getElem?.mp ht
    obtain ⟨hscan, heof, hsource⟩ := Tokens.scan_past hn
    obtain ⟨_, _, hspans⟩ := Cursor.exists_spans hscan heof
    rw [hspans.place_eq, Cursor.placeOf, hsource]
    exact .placed (.token hissue hn)
  number htag hpayload hparse hliteral := by
    cases Number.misread_of_parse hparse with
    | literal issue => exact absurd rfl (hliteral issue)
    | tooLarge hholds hlarge => exact .tooLarge ⟨t, ht, _, _, htag, hpayload, hholds, hlarge⟩

theorem confined_ofSource (source : List Char) :
    (Tokens.ofSource source).Confined (Refused source) := by
  refine Tokens.confined_of (fun t => blames_of_mem) fun fault hending => ?_
  obtain ⟨issue, index, hindex, rfl, hbreaks⟩ := Tokens.breaksAt_of_ending hending
  exact .placed (.noToken hindex hbreaks)

/-- Nesting within a limit is read as without one. -/
theorem readAllWithin_cases (limit : Nat) (source : List Char) :
    readAllWithin limit source = .error .tooDeep ∨ readAllWithin limit source = readAll source := by
  let enough := max limit (Tokens.ofSource source).length
  have hwhole : readAllWithin enough source = readAll source := by
    rw [readAllWithin, readFormsWithin, Tokens.within_of_length_le (Nat.le_max_right ..)]
    rfl
  rcases readAllWithin_raised (Nat.le_max_left limit _) source with hdeep | hsame
  · exact Or.inl hdeep
  · exact Or.inr (hsame.symm.trans hwhole)

end Reader

/-- Reading a text ends, in its forms or in a fault. The fault says at which line and column it is,
which is where a token of the text starts or, if the text cannot be split into tokens, where the
literal or the character stands that is no token. Only a decimal literal whose value is beyond the
largest decimal ends the reading in another way. A limit on nesting changes nothing of that unless
the text nests deeper. -/
theorem reading_blames_place (source : List Char) :
    ((∃ forms, Reader.readAll source = .ok forms) ∨
      (∃ issue index, Reader.PutsAt source issue index ∧
        let place := (Cursor.start source).placeOf index
        let fault := Fault.malformed issue (some place)
        Reader.readAll source = .error fault ∧
          fault.message = some (issue.message ++
            (" at line " ++ place.line.repr ++ ", column " ++ place.column.repr))) ∨
      Reader.readAll source = .error (.breakdown .decimalOverflow) ∧
        Reader.HoldsTooLarge source) ∧
    ∀ limit, Reader.readAllWithin limit source = .error .tooDeep ∨
      Reader.readAllWithin limit source = Reader.readAll source := by
  refine ⟨?_, fun limit => Reader.readAllWithin_cases limit source⟩
  cases hread : Reader.readAll source with
  | ok forms => exact Or.inl ⟨forms, rfl⟩
  | error fault =>
    have hrefused := Reader.fault_of_readTokens (Reader.confined_ofSource source) hread
    cases hrefused with
    | placed hputs => exact Or.inr (Or.inl ⟨_, _, hputs, rfl, rfl⟩)
    | tooLarge hlarge => exact Or.inr (Or.inr ⟨rfl, hlarge⟩)

end TowerLisp
