import TowerLisp.Proofs.Nesting
import TowerLisp.Proofs.RootFrames
import TowerLisp.Proofs.TextJoining

/-!
Texts below one another. If all of a text can be read, then another text on the lines below
it is read as it is alone, that much further down. So to evaluate both at once is to evaluate
the first and then, if it has ended well, the second.
-/

namespace TowerLisp

open Tokens (following)

namespace Reader

/-- What is read of some forms and a text `lines` further down, from what is read of that text
on its own. -/
def readBelow (lines : Nat) (forms : List Form) (read : List Form × Option Fault) :
    List Form × Option Fault :=
  (forms ++ read.1.map (Form.relabel (Place.lowered lines)),
    read.2.map (Fault.relabel (Place.lowered lines)))

/-- The same for all forms or none. -/
def placedBelow (lines : Nat) (forms : List Form) :
    Except Fault (List Form) → Except Fault (List Form)
  | .ok others => .ok (forms ++ others.map (Form.relabel (Place.lowered lines)))
  | .error fault => .error (fault.relabel (Place.lowered lines))

theorem allOrNone_readBelow (lines : Nat) (forms : List Form) (read : List Form × Option Fault) :
    allOrNone (readBelow lines forms read) = placedBelow lines forms (allOrNone read) := by
  obtain ⟨others, _ | fault⟩ := read
  · rfl
  · rfl

theorem readAll_eq_error {source : List Char} {fault : Fault}
    (h : (readForms source).2 = some fault) : readAll source = .error fault := by
  rw [readAll]
  generalize readForms source = read at h ⊢
  obtain ⟨found, _⟩ := read
  cases h
  rfl

/-- Tokens that break off are not all read. -/
theorem exists_fault_of_broken (front : List Token) (fault : Fault) :
    ∃ found fault', readTokens (following front (.broken fault)) = (found, some fault') := by
  obtain ⟨found, _ | fault', hread⟩ :
      ∃ found fault?, readTokens (following front (.broken fault)) = (found, fault?) := ⟨_, _, rfl⟩
  · obtain ⟨others, eof, htokens, -⟩ := derivesAll_of_readTokens hread
    have hending := congrArg Tokens.ending htokens
    rw [Tokens.ending_following, Tokens.ending_following] at hending
    cases hending
  · exact ⟨found, fault', hread⟩

section Below

variable {above : List Char} {forms : List Form} (hend : Cursor.endMark ∉ above)
  (h : readAll above = .ok forms) (below : List Char)

include hend h

theorem readForms_below :
    readForms (above ++ '\n' :: below) =
      readBelow (above.count '\n' + 1) forms (readForms below) := by
  obtain ⟨front, eof, htokens, hderives⟩ := derivesAll_of_readTokens (allOrNone_eq_ok h)
  rw [readForms, Tokens.ofSource_line hend htokens below, readTokens_following hderives,
    readTokens_relabel _ (Tokens.plain_ofSource below)]
  rfl

/-- Within a limit a text below another is read as it is alone, unless the one above it is too
deep. Then it does not matter what is below. -/
theorem readFormsWithin_below (limit : Nat) :
    (readFormsWithin limit above = (forms, none) ∧
      readFormsWithin limit (above ++ '\n' :: below) =
        readBelow (above.count '\n' + 1) forms (readFormsWithin limit below)) ∨
    ∃ found fault, readFormsWithin limit above = (found, some fault) ∧
      readFormsWithin limit (above ++ '\n' :: below) = (found, some fault) := by
  obtain ⟨front, eof, htokens, hderives⟩ := derivesAll_of_readTokens (allOrNone_eq_ok h)
  have hjoined := Tokens.ofSource_line hend htokens below
  rw [readFormsWithin, readFormsWithin, htokens, hjoined]
  rcases Tokens.within_following hderives limit with hwhole | ⟨kept, hkept⟩
  · left
    rw [hwhole, hwhole, readTokens_following hderives, readTokens_following hderives,
      Tokens.within_relabel, readTokens_relabel _ ((Tokens.plain_ofSource below).within limit)]
    exact ⟨congrArg (·, none) (List.append_nil forms), rfl⟩
  · right
    rw [hkept, hkept]
    obtain ⟨found, fault, hread⟩ := exists_fault_of_broken kept .tooDeep
    exact ⟨found, fault, hread, hread⟩

theorem readAll_below :
    readAll (above ++ '\n' :: below) =
      placedBelow (above.count '\n' + 1) forms (readAll below) := by
  rw [readAll, readForms_below hend h, allOrNone_readBelow]
  rfl

theorem readAllWithin_below {limit : Nat} (hlimit : readAllWithin limit above = .ok forms) :
    readAllWithin limit (above ++ '\n' :: below) =
      placedBelow (above.count '\n' + 1) forms (readAllWithin limit below) := by
  have hread := allOrNone_eq_ok hlimit
  rcases readFormsWithin_below hend h below limit with ⟨-, hjoined⟩ | ⟨found, fault, habove, -⟩
  · rw [readAllWithin, hjoined, allOrNone_readBelow]
    rfl
  · rw [habove] at hread
    cases hread

end Below

/-- A text without forms is the same within every limit. -/
theorem readFormsWithin_eq_nil_iff {source : List Char} {limit : Nat} :
    readFormsWithin limit source = ([], none) ↔ readAll source = .ok [] := by
  constructor
  · intro h
    have hwithin : readAllWithin limit source = .ok [] := by
      rw [readAllWithin, h]
      rfl
    exact readAll_of_within hwithin
  · intro h
    obtain ⟨front, eof, htokens, hderives⟩ := derivesAll_of_readTokens (allOrNone_eq_ok h)
    cases hderives
    rw [readFormsWithin, htokens]
    rfl

end Reader

/-- Two evaluations end in one value or in faults of one kind, in worlds that differ in places
only. -/
inductive SameOutcome :
    EStateM.Result Fault World Value → EStateM.Result Fault World Value → Prop where
  | value (v : Value) {w w' : World} : w.Alike w' → SameOutcome (.ok v w) (.ok v w')
  | fault {f g : Fault} {w w' : World} : f.Alike g → w.Alike w' →
      SameOutcome (.error f w) (.error g w')

theorem SameOutcome.refl (result : EStateM.Result Fault World Value) :
    SameOutcome result result := by
  cases result with
  | ok v w => exact .value v (.refl w)
  | error fault w => exact .fault (.refl fault) (.refl w)

theorem EndsAlike.sameOutcome {D : Discipline} {w : World}
    {r r' : EStateM.Result Fault World Value} (h : EndsAlike D Same w r r') : SameOutcome r r' := by
  cases h with
  | value hreach hsame =>
    cases hsame
    exact .value _ hreach.alike
  | fault hreach halike => exact .fault halike hreach.alike

theorem Evaluator.runAll_append (ev : Evaluator) (scope : ScopeId) (last : Value)
    (forms others : List Form) :
    ev.runAll scope last (forms ++ others) =
      ev.runAll scope last forms >>= fun value => ev.runAll scope value others := by
  induction forms generalizing last with
  | nil => exact (pure_bind _ _).symm
  | cons form forms ih =>
    simp only [List.cons_append, runAll, bind_assoc, ih]

namespace Session

/-- Evaluates a text and then, unless it ends in a fault, another one. A text without forms
leaves the value as it was. -/
def evalInTurn (above below : List Char) : EvalM Value := do
  let value ← evalText above
  match Reader.readAll below with
  | .ok [] => return value
  | _ => evalText below

theorem runForms_append (ev : Evaluator) (last : Value) (forms others : List Form)
    (fault? : Option Fault) :
    runForms ev last (forms ++ others, fault?) =
      runForms ev last (forms, none) >>= fun value => runForms ev value (others, fault?) := by
  simp only [runForms, Evaluator.runAll_append, bind_assoc, pure_bind]

theorem runForms_ne_ok {ev : Evaluator} {last value : Value} {forms : List Form} {fault : Fault}
    {w w' : World} : runForms ev last (forms, some fault) w ≠ .ok value w' := by
  intro h
  obtain ⟨_, _, -, hthrow⟩ := EvalM.bind_eq_ok h
  cases hthrow

/-- It does not matter where the forms stand. -/
theorem runForms_relabel (φ : Place → Option Place) (steps depth : Nat) (last : Value)
    (read : List Form × Option Fault) (w : World) :
    SameOutcome
      (runForms (evaluator steps depth) last
        (read.1.map (Form.relabel φ), read.2.map (Fault.relabel φ)) w)
      (runForms (evaluator steps depth) last read w) := by
  have hforms : List.Forall₂ Form.Alike (read.1.map (Form.relabel φ)) read.1 :=
    List.forall₂_map_left_iff.mpr
      (List.forall₂_same.mpr fun form _ => Form.relabel_alike φ form)
  have hfault : Option.Rel Fault.Alike (read.2.map (Fault.relabel φ)) read.2 := by
    cases read.2 with
    | none => exact .none
    | some fault => exact .some (Fault.relabel_alike φ fault)
  exact (parallel_runForms (steady_topGrows steps depth) ⟨.refl w, trivial⟩ last hforms
    hfault).sameOutcome

/-- Unless there is nothing to run, it does not matter which value was the last one. -/
theorem runForms_of_ne {read : List Form × Option Fault} (h : read ≠ ([], none)) (ev : Evaluator)
    (last last' : Value) : runForms ev last read = runForms ev last' read := by
  obtain ⟨_ | ⟨form, forms⟩, _ | fault⟩ := read
  · exact absurd rfl h
  · rfl
  · rfl
  · rfl

theorem settings_of_evalText {source : List Char} {value : Value} {w w' : World}
    (h : evalText source w = .ok value w') : w'.settings = w.settings := by
  have hrun := parallel_evalText source w
  rw [Parallel, h] at hrun
  cases hrun with
  | value hreach _ => exact hreach.settings_eq

/-- After a first text, the forms of a second one are run. -/
theorem evalInTurn_of_ok {above : List Char} {w w' : World} {value : Value}
    (h : evalText above w = .ok value w') (below : List Char) :
    evalInTurn above below w = runForms (evaluator chainLimit w.settings.depthLimit) value
      (Reader.readFormsWithin w.settings.depthLimit below) w' := by
  change EStateM.bind (evalText above) _ w = _
  rw [EStateM.bind, h]
  dsimp only
  by_cases hnil : Reader.readAll below = .ok []
  · rw [hnil, Reader.readFormsWithin_eq_nil_iff.mpr hnil]
    rfl
  · have hread : Reader.readFormsWithin w.settings.depthLimit below ≠ ([], none) := by
      rwa [Ne, Reader.readFormsWithin_eq_nil_iff]
    rw [runForms_of_ne hread _ value .nil, ← settings_of_evalText h, ← evalText_eq]
    refine congrFun ?_ w'
    split
    · exact absurd ‹_› hnil
    · rfl

theorem evalInTurn_of_error {above : List Char} {w w' : World} {fault : Fault}
    (h : evalText above w = .error fault w') (below : List Char) :
    evalInTurn above below w = .error fault w' := by
  change EStateM.bind (evalText above) _ w = _
  rw [EStateM.bind, h]

theorem evalText_below {above : List Char} {forms : List Form} (hend : Cursor.endMark ∉ above)
    (h : Reader.readAll above = .ok forms) (below : List Char) (w : World) :
    SameOutcome (evalText (above ++ '\n' :: below) w) (evalInTurn above below w) := by
  have habove := evalText_eq above w
  have hjoined := evalText_eq (above ++ '\n' :: below) w
  rcases Reader.readFormsWithin_below hend h below w.settings.depthLimit with
    ⟨hread, hbelow⟩ | ⟨found, fault, hread, hbelow⟩
  · rw [hread] at habove
    rw [hbelow, Reader.readBelow, runForms_append] at hjoined
    change _ = EStateM.bind _ _ w at hjoined
    rw [EStateM.bind, ← habove] at hjoined
    cases hfirst : evalText above w with
    | error fault w' =>
      rw [hfirst] at hjoined
      rw [hjoined, evalInTurn_of_error hfirst]
      exact .refl _
    | ok value w' =>
      rw [hfirst] at hjoined
      rw [hjoined, evalInTurn_of_ok hfirst]
      exact runForms_relabel _ _ _ value _ w'
  · -- the text above is too deep, and it ends where it would without the one below
    rw [hread] at habove
    rw [hbelow, ← habove] at hjoined
    cases hfirst : evalText above w with
    | error fault' w' =>
      rw [hjoined, hfirst, evalInTurn_of_error hfirst]
      exact .refl _
    | ok value w' => exact absurd (habove.symm.trans hfirst) runForms_ne_ok

end Session

/-- Let all forms of a text be readable. Then a text on the lines below it is read as it is
alone, with its forms, or its fault, as many lines further down as the text above takes up;
limits on the nesting do not change this. And in every world the evaluation of both at once
ends as that of one after the other. -/
theorem joined_texts_agree {above : List Char} {forms : List Form}
    (hend : Cursor.endMark ∉ above) (h : Reader.readAll above = .ok forms) (below : List Char) :
    let joined := above ++ '\n' :: below
    let lines := above.count '\n' + 1
    Reader.readAll joined = Reader.placedBelow lines forms (Reader.readAll below) ∧
    (∀ limit, Reader.readAllWithin limit above = .ok forms →
      Reader.readAllWithin limit joined =
        Reader.placedBelow lines forms (Reader.readAllWithin limit below)) ∧
    ∀ w, SameOutcome (Session.evalText joined w) (Session.evalInTurn above below w) := by
  intro joined lines
  refine ⟨Reader.readAll_below hend h below, ?_, Session.evalText_below hend h below⟩
  intro limit hlimit
  exact Reader.readAllWithin_below hend h below hlimit

/-- A comment at the end of the text above, and a parenthesis too many below. -/
theorem joined_texts_agree_comment :
    let above := "'(+ . #\\a) x ; note".toList
    let below := "\"b\nc\" )".toList
    Cursor.endMark ∉ above ∧ (Reader.readAll above).isOk = true ∧
    Reader.readAll below = .error (.malformed (.unexpectedToken "RPAREN())") (some ⟨2, 4⟩)) ∧
    Reader.readAll (above ++ '\n' :: below) =
      .error (.malformed (.unexpectedToken "RPAREN())") (some ⟨3, 4⟩)) ∧
    ∀ w, SameOutcome (Session.evalText (above ++ '\n' :: below) w)
      (Session.evalInTurn above below w) := by
  intro above below
  have hend : Cursor.endMark ∉ above := by decide
  have habove : (Reader.readAll above).isOk = true := by decide +kernel
  have hbelow : Reader.readAll below =
      .error (.malformed (.unexpectedToken "RPAREN())") (some ⟨2, 4⟩)) :=
    Reader.readAll_eq_error (by decide +kernel)
  obtain ⟨forms, hforms⟩ := exists_ok_of_isOk habove
  obtain ⟨hread, -, hrun⟩ := joined_texts_agree hend hforms below
  refine ⟨hend, habove, hbelow, ?_, hrun⟩
  rw [hread, hbelow]
  rfl

end TowerLisp
