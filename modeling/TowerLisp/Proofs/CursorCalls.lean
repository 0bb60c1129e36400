import TowerLisp.Proofs.ReadingSteps

/-!
A cursor under calls. Scanning, peeking and moving back may follow each other in any order, and a
scan may find a fault. The cursor stays in its text at the character of its index. A token moves it
on, the end holds it, and a peek leaves it where it is. After an opening parenthesis, moving back
and scanning leads to the same spot, so that the form can be read from either side of it.
-/

namespace TowerLisp

namespace Cursor

/-- The cursor at an index of its text. -/
def moveTo (c : Cursor) (index : Nat) : Cursor :=
  ⟨(c.source.take index).reverse, c.source.drop index, .behind (c.source.take index).reverse, rfl⟩

/-- What can be asked of a cursor: the next token, a look at it, or a move back by one character. -/
inductive Call where
  | next
  | peek
  | back
deriving DecidableEq, Repr

/-- The answer to a call, if it has one, and the cursor afterwards. A look at the next token scans
it and moves to the index where the cursor was. -/
def call (c : Cursor) : Call → Option (Except Fault Token) × Cursor
  | .next => (some c.scan.1, c.scan.2)
  | .peek => (some c.peek, c.scan.2.moveTo c.position)
  | .back => (none, c.back)

/-- The answers to some calls, and the cursor after the last one. -/
def run (c : Cursor) : List Call → List (Option (Except Fault Token)) × Cursor
  | [] => ([], c)
  | first :: calls =>
    let (answer, after) := c.call first
    let (answers, last) := after.run calls
    (answer :: answers, last)

section Staying

/-- The current character is that at the index of the cursor, or the end mark behind the text. -/
theorem current_eq_getD (c : Cursor) : c.current = c.source.getD c.position endMark := by
  rw [current, ← drop_position, List.headD_eq_head?_getD, List.head?_drop,
    List.getD_eq_getElem?_getD]

/-- In a text, the index tells where a cursor is. -/
theorem moveTo_position {c d : Cursor} (h : d.source = c.source) : d.moveTo c.position = c := by
  refine ext ?_ ?_
  · change (d.source.take c.position).reverse = c.before
    rw [h, take_position, List.reverse_reverse]
  · change d.source.drop c.position = c.ahead
    rw [h, drop_position]

@[simp] theorem source_moveTo (c : Cursor) (index : Nat) : (c.moveTo index).source = c.source := by
  simp [moveTo, source]

@[simp] theorem source_takeWhile (p : Char → Bool) (c : Cursor) :
    (c.takeWhile p).2.source = c.source :=
  source_skip c _

/-- What is scanned at a cursor ends in its text. -/
def StaysIn (c : Cursor) (r : Except Fault Token × Cursor) : Prop :=
  r.2.source = c.source

theorem StaysIn.ite {c : Cursor} {p : Prop} [Decidable p] {r s : Except Fault Token × Cursor}
    (hr : c.StaysIn r) (hs : c.StaysIn s) : c.StaysIn (if p then r else s) := by
  split
  · exact hr
  · exact hs

theorem scanCharacter_staysIn (c : Cursor) : c.StaysIn c.scanCharacter := by
  unfold scanCharacter
  dsimp only
  refine .ite (by simp [StaysIn]) ?_
  have hname : (if Text.isLetter c.advance.advance.current = true then
      c.advance.advance.takeWhile Text.isLetter
    else ([c.advance.advance.current], c.advance.advance.advance)).2.source = c.source := by
    split <;> simp
  refine .ite hname ?_
  split
  · exact hname
  · exact hname

theorem scanHash_staysIn (c : Cursor) : c.StaysIn c.scanHash := by
  unfold scanHash
  exact .ite (scanCharacter_staysIn c) (.ite (by simp [StaysIn]) (by simp [StaysIn]))

theorem scanHere_staysIn (c : Cursor) : c.StaysIn c.scanHere := by
  have hsingle (token : Except Fault Token) : c.StaysIn (token, c.advance) := source_advance c
  have hsplice : c.StaysIn (.ok (c.token .splice ",@"), c.advance.advance) := by simp [StaysIn]
  have hnumber : c.StaysIn (.ok c.scanNumber.1, c.scanNumber.2) := by simp [StaysIn, scanNumber]
  have hlabel : c.StaysIn (.ok c.scanLabel.1, c.scanLabel.2) := by simp [StaysIn, scanLabel]
  have hstring : c.StaysIn c.scanString := by simp [StaysIn, scanString]
  unfold scanHere
  refine .ite rfl (.ite hnumber ?_)
  refine .ite (hsingle _) (.ite (hsingle _) ?_)
  refine .ite hlabel (.ite hstring (.ite (scanHash_staysIn c) ?_))
  refine .ite (hsingle _) (.ite (hsingle _) ?_)
  refine .ite (hsingle _) (.ite (hsingle _) ?_)
  exact .ite (.ite hsplice (hsingle _)) rfl

/-- Scanning stays in the text, whatever it finds. -/
@[simp] theorem source_scan (c : Cursor) : c.scan.2.source = c.source :=
  (scanHere_staysIn c.skipTrivia).trans (source_skip c _)

theorem source_call (c : Cursor) (asked : Call) : (c.call asked).2.source = c.source := by
  cases asked with
  | next => exact c.source_scan
  | peek => exact (source_moveTo _ _).trans c.source_scan
  | back => exact c.source_back

theorem source_run (c : Cursor) (calls : List Call) : (c.run calls).2.source = c.source := by
  induction calls generalizing c with
  | nil => rfl
  | cons first calls ih => exact (ih _).trans (c.source_call first)

/-- A look at the next token moves nothing, also if there is a fault in its place. -/
theorem call_peek (c : Cursor) : c.call .peek = (some c.scan.1, c) :=
  Prod.ext rfl (moveTo_position c.source_scan)

end Staying

section Returning

/-- Behind blanks and comments there are none. -/
theorem triviaLength_drop (inComment : Bool) (text : List Char) :
    triviaLength false 0 (text.drop (triviaLength inComment 0 text)) = 0 := by
  induction text generalizing inComment with
  | nil => rfl
  | cons c text ih =>
    have hstep (inComment' : Bool) :
        triviaLength false 0 ((c :: text).drop (triviaLength inComment' 1 text)) = 0 := by
      rw [triviaLength_add, List.drop_succ_cons]
      exact ih inComment'
    have hend : Text.isBlank endMark = false := by decide
    rw [triviaLength]
    split
    · split
      · rename_i hmark
        subst hmark
        rw [List.drop_zero, triviaLength, if_neg (by decide), hend]
        rfl
      · exact hstep _
    split
    · exact hstep _
    split
    · exact hstep _
    · rw [List.drop_zero, triviaLength, if_neg (by decide), if_neg ‹_›, if_neg ‹_›]

/-- What is scanned behind blanks and comments is what is scanned in front of them. -/
theorem scan_skipTrivia (c : Cursor) : c.skipTrivia.scan = c.scan := by
  have hnone : triviaLength false 0 c.skipTrivia.ahead = 0 := by
    rw [skipTrivia, ahead_skip]
    exact triviaLength_drop false c.ahead
  have hstay : c.skipTrivia.skipTrivia = c.skipTrivia := by
    rw [skipTrivia, hnone, skip]
  rw [scan, hstay, scan]

variable {c after : Cursor} {t : Token}

/-- A cursor at the end stays there. -/
theorem scan_of_eof (h : c.scan = (.ok t, after)) (heof : t.tag = .eof) :
    after.scan = (.ok t, after) := by
  obtain ⟨-, -, rfl⟩ | ⟨-, hscanned⟩ := scanHere_cases h
  · exact (scan_skipTrivia c).trans h
  · have hspelled := hscanned.spelled
    rw [Token.Spelled, heof] at hspelled
    exact hspelled.not_eof.elim

/-- At the end every further token is the end again. -/
theorem run_of_eof (h : c.scan = (.ok t, after)) (heof : t.tag = .eof) {calls : List Call}
    (hcalls : .back ∉ calls) : after.run calls = (calls.map fun _ => some (.ok t), after) := by
  have hagain := scan_of_eof h heof
  have hasked : ∀ asked ≠ .back, after.call asked = (some (.ok t), after) := by
    intro asked hasked
    cases asked with
    | next => rw [call, hagain]
    | peek => rw [call_peek, hagain]
    | back => exact absurd rfl hasked
  induction calls with
  | nil => rfl
  | cons first calls ih =>
    rw [List.mem_cons, not_or] at hcalls
    rw [run, hasked first (Ne.symm hcalls.1)]
    dsimp only
    rw [ih hcalls.2, List.map_cons]

/-- A token of one character starts one character back. -/
theorem Spans.back_eq {gap : List Char} {char : Char} (h : c.Spans t after gap [char]) :
    after.back = c.skipTrivia := by
  obtain ⟨before, ahead, place, hplace⟩ := after
  have hbefore : before = char :: c.skipTrivia.before := h.passed.before
  subst hbefore
  exact ext rfl h.passed.ahead.symm

/-- An opening parenthesis is scanned again after a move back. -/
theorem scan_back_of_lparen (h : c.scan = (.ok t, after)) (htag : t.tag = .lparen) :
    after.back.scan = (.ok t, after) := by
  have hother {tag : Tag} (hne : .lparen ≠ tag) : t.tag ≠ tag := htag ▸ hne
  obtain ⟨gap, word, hspans⟩ := exists_spans h (hother (by decide))
  have hpayload : t.payload = .text "(" := by
    obtain ⟨-, rfl, -⟩ | ⟨-, hscanned⟩ := scanHere_cases h
    · cases htag
    · have hspelled := hscanned.spelled
      rw [Token.Spelled, htag] at hspelled
      exact hspelled.lparen_text
  have hword : word = ['('] := by
    have hwritten := hspans.written (hother (by decide)) (hother (by decide))
    rw [hpayload] at hwritten
    exact String.ofList_injective (Except.ok.inj hwritten).symm
  subst hword
  rw [hspans.back_eq, scan_skipTrivia, h]

end Returning

end Cursor

open Cursor (Call)

/-- Whatever is asked of a cursor, and whether or not there is a token where one is asked for, the
cursor stays in its text, at or in front of its end. Its character is the one at its index, and the
end mark behind the text. A look at the next token, which may be a fault, moves nothing. A token
other than the end moves the cursor on. At the end, as long as the cursor is not moved back, every
further token is the same end at the same spot. If the token is an opening parenthesis, then a move
back and the next token lead to the same token and the same spot; so what is read from the cursor
that has been moved back, a form or a fault, and the tokens left behind it, is what the reader reads
behind the parenthesis. -/
theorem cursor_kept_by_calls (source : List Char) (calls : List Call) :
    let c := ((Cursor.start source).run calls).2
    c.source = source ∧ c.position ≤ source.length ∧
      c.current = source.getD c.position Cursor.endMark ∧
      c.call .peek = (some c.scan.1, c) ∧
      ∀ t after, c.scan = (.ok t, after) →
        (t.tag ≠ .eof → c.position < after.position) ∧
        (t.tag = .eof → ∀ more, Call.back ∉ more →
          after.run more = (more.map fun _ => some (.ok t), after)) ∧
        (t.tag = .lparen → after.back.scan = (.ok t, after) ∧
          ∀ fuel, 2 * (Tokens.ofCursor after).length < fuel →
            Reader.read (.ofCursor after.back) = (Reader.form fuel t (.ofCursor after)).map
              fun formed => .form formed.1 formed.2) := by
  intro c
  have hsource : c.source = source := Cursor.source_run _ calls
  have hposition := c.position_le
  have hcurrent := c.current_eq_getD
  rw [hsource] at hposition hcurrent
  refine ⟨hsource, hposition, hcurrent, c.call_peek, fun t after hscan => ⟨fun heof => ?_,
    fun heof more hmore => Cursor.run_of_eof hscan heof hmore, fun htag => ?_⟩⟩
  · obtain ⟨_, _, hspans⟩ := Cursor.exists_spans hscan heof
    obtain ⟨hskipped, hpassed, -⟩ := hspans.indices
    exact Nat.lt_of_le_of_lt hskipped hpassed
  · have hagain := Cursor.scan_back_of_lparen hscan htag
    exact ⟨hagain, fun fuel hfuel => Reader.read_of_scan_lparen hagain htag hfuel⟩

/-- A list that breaks off in a string, scanned again after the fault and four moves back, and a
text with a comment at its end. -/
theorem cursor_kept_by_calls_faulty :
    (∃ t after, let c := ((Cursor.start "(f \"".toList).run
        [.next, .next, .next, .back, .back, .back, .back]).2
      c.scan = (.ok t, after) ∧ t.tag = .lparen ∧ c.position < after.position ∧
        after.back.scan = (.ok t, after) ∧
        Reader.read (.ofCursor after.back) = (Reader.form 3 t (.ofCursor after)).map
          fun formed => .form formed.1 formed.2) ∧
    ∃ t after, let c := ((Cursor.start "f ;".toList).run [.next, .peek]).2
      c.scan = (.ok t, after) ∧ t.tag = .eof ∧
        after.run [.next, .peek] = ([some (.ok t), some (.ok t)], after) := by
  constructor
  · obtain ⟨t, after, hscan, htag, hleft⟩ : ∃ t after, (((Cursor.start "(f \"".toList).run
        [.next, .next, .next, .back, .back, .back, .back]).2).scan = (.ok t, after) ∧
        t.tag = .lparen ∧ (Tokens.ofCursor after).length = 1 := by
      refine ⟨_, _, rfl, rfl, ?_⟩
      decide +kernel
    obtain ⟨-, -, -, -, hscanned⟩ := cursor_kept_by_calls "(f \"".toList
      [.next, .next, .next, .back, .back, .back, .back]
    obtain ⟨hmoves, -, hopens⟩ := hscanned t after hscan
    obtain ⟨hagain, hread⟩ := hopens htag
    exact ⟨t, after, hscan, htag, hmoves (by rw [htag]; decide), hagain, hread 3 (by omega)⟩
  · obtain ⟨t, after, hscan, htag⟩ : ∃ t after,
        (((Cursor.start "f ;".toList).run [.next, .peek]).2).scan = (.ok t, after) ∧
        t.tag = .eof := ⟨_, _, rfl, rfl⟩
    obtain ⟨-, -, -, -, hscanned⟩ := cursor_kept_by_calls "f ;".toList [.next, .peek]
    obtain ⟨-, hend, -⟩ := hscanned t after hscan
    exact ⟨t, after, hscan, htag, hend htag [.next, .peek] (by decide)⟩

end TowerLisp
