import TowerLisp.Form.Reader
import TowerLisp.Proofs.ComputedFaults
import TowerLisp.Proofs.Places
import TowerLisp.Proofs.Programs

/-!
Two readings side by side. The second one reads the tokens of the first, perhaps from other
places, and it may go on where the first one was cut off because its tokens nest too deep. Then
the second reading ends in what the first one ends in, at the places of the second, unless the
first was cut off. Which fault of one answers to which of the other is left open: a pairing says
so for the faults that the reader makes, and it may in passing say what all faults are like.
-/

namespace TowerLisp

/-- A token that carries a text that can be shown. -/
def Token.Plain (t : Token) : Prop :=
  ∃ text, t.payload.written = .ok text

theorem Token.Plain.shown {t : Token} (h : t.Plain) : ∃ text, t.shown = .ok text := by
  obtain ⟨text, htext⟩ := h
  unfold Token.shown
  split
  · exact ⟨_, rfl⟩
  · exact ⟨_, rfl⟩
  · rw [htext]
    exact ⟨_, rfl⟩

theorem Token.Spelled.plain {t : Token} (h : t.Spelled) : t.Plain := by
  obtain ⟨tag, payload, place⟩ := t
  cases h <;> exact ⟨_, rfl⟩

namespace Reader

/-- How a second reading may differ from a first one: where its places are, which of its faults
answer to which, and whether the limit on nesting may cut off the first reading alone. -/
structure Pairing where
  place : Place → Option Place
  faults : Fault → Fault → Prop
  cut : Prop
  tooDeep : faults .tooDeep .tooDeep
  number : ∀ {digits fault}, Number.parse digits = .error fault →
    (∀ issue, fault ≠ .literal issue) → faults fault fault

namespace Pairing

/-- A token at which the faults of both readings answer to each other. -/
structure Fits (P : Pairing) (token : Token) : Prop where
  plain : token.Plain
  blamed : ∀ issue, issue.ofEvaluation = false →
    P.faults (.malformed issue token.place) (.malformed issue (token.relabel P.place).place)

/-- The tokens of the two readings. -/
inductive Rows (P : Pairing) : Tokens → Tokens → Prop where
  | cut (tokens : Tokens) : P.cut → Rows P (.broken .tooDeep) tokens
  | done (eof : Token) : Rows P (.done eof) (.done (eof.relabel P.place))
  | broken {f g : Fault} : P.faults f g → Rows P (.broken f) (.broken g)
  | more {token : Token} {rest rest' : Tokens} : P.Fits token → Rows P rest rest' →
      Rows P (.more token rest) (.more (token.relabel P.place) rest')

/-- What the two readings end in: results or faults that answer to each other, or anything if
the first one was cut off. -/
inductive Ends {α β : Type} (P : Pairing) (R : α → β → Prop) :
    Except Fault α → Except Fault β → Prop where
  | cut (n : Except Fault β) : P.cut → Ends P R (.error .tooDeep) n
  | ok {a : α} {b : β} : R a b → Ends P R (.ok a) (.ok b)
  | error {f g : Fault} : P.faults f g → Ends P R (.error f) (.error g)

/-- What is read, and the tokens behind it. -/
structure Moved {α : Type} (P : Pairing) (move : α → α) (a b : α × Tokens) : Prop where
  result : b.1 = move a.1
  rest : P.Rows a.2 b.2

/-- Two readings of a form. -/
abbrev OnForm (P : Pairing) : Except Fault (Form × Tokens) → Except Fault (Form × Tokens) → Prop :=
  P.Ends (P.Moved (Form.relabel P.place))

/-- Two readings of a row of forms. -/
abbrev OnForms (P : Pairing) :
    Except Fault (List Form × Tokens) → Except Fault (List Form × Tokens) → Prop :=
  P.Ends (P.Moved (List.map (Form.relabel P.place)))

/-- Steps with which the second reading gets as far as the first one. -/
def Fueled (P : Pairing) (fuel fuel' : Nat) : Prop :=
  fuel = fuel' ∨ P.cut ∧ fuel ≤ fuel'

section Sequences

variable {P : Pairing} {α β : Type} {move : α → α} {R : β → β → Prop}

theorem Ends.bind {α' β' γ : Type} {Q : α → α' → Prop} {S : γ → β' → Prop} {m : Except Fault α}
    {n : Except Fault α'} {f : α → Except Fault γ} {g : α' → Except Fault β'}
    (hmn : P.Ends Q m n) (hfg : ∀ {a b}, Q a b → P.Ends S (f a) (g b)) :
    P.Ends S (m >>= f) (n >>= g) := by
  cases hmn with
  | cut n hcut => exact .cut _ hcut
  | ok hab => exact hfg hab
  | error hfault => exact .error hfault

theorem Ends.ite {p : Prop} [Decidable p] {m n m' n' : Except Fault β}
    (hm : p → P.Ends R m m') (hn : ¬ p → P.Ends R n n') :
    P.Ends R (if p then m else n) (if p then m' else n') := by
  split
  · exact hm ‹_›
  · exact hn ‹_›

theorem ends_ok {a b : α} {rest rest' : Tokens} (hb : b = move a) (hrest : P.Rows rest rest') :
    P.Ends (P.Moved move) (.ok (a, rest)) (.ok (b, rest')) :=
  .ok ⟨hb, hrest⟩

theorem ends_bind {m m' : Except Fault (α × Tokens)} {f g : α × Tokens → Except Fault β}
    (hm : P.Ends (P.Moved move) m m')
    (h : ∀ a rest rest', P.Rows rest rest' → P.Ends R (f (a, rest)) (g (move a, rest'))) :
    P.Ends R (m >>= f) (m' >>= g) := by
  refine hm.bind ?_
  rintro ⟨a, rest⟩ ⟨_, rest'⟩ ⟨rfl, hrest⟩
  exact h a rest rest' hrest

theorem ends_failAt {token : Token} (htoken : P.Fits token) {issue : SyntaxIssue}
    (hissue : issue.ofEvaluation = false) :
    P.Ends R (failAt token issue) (failAt (token.relabel P.place) issue) :=
  .error (htoken.blamed issue hissue)

theorem ends_failShowing {token : Token} (htoken : P.Fits token) {issue : String → SyntaxIssue}
    (hissue : ∀ text, (issue text).ofEvaluation = false) :
    P.Ends R (failShowing token issue) (failShowing (token.relabel P.place) issue) := by
  obtain ⟨text, htext⟩ := htoken.plain.shown
  rw [failShowing, failShowing, Token.shown_relabel, htext]
  exact ends_failAt htoken (hissue text)

theorem ends_next {opener : Token} {tokens tokens' : Tokens} {f g : Token × Tokens → Except Fault β}
    (hopener : P.Fits opener) (htokens : P.Rows tokens tokens')
    (h : ∀ token rest rest', P.Fits token → P.Rows rest rest' →
      P.Ends R (f (token, rest)) (g (token.relabel P.place, rest'))) :
    P.Ends R (next opener tokens >>= f) (next (opener.relabel P.place) tokens' >>= g) := by
  cases htokens with
  | cut tokens' hcut => exact .cut _ hcut
  | done eof => exact .error (hopener.blamed .unmatchedParen rfl)
  | broken hfault => exact .error hfault
  | more htoken hrest => exact h _ _ _ htoken hrest

theorem ends_nextQuoted {opener : Token} {tokens tokens' : Tokens}
    {f g : Token × Tokens → Except Fault β} (hopener : P.Fits opener)
    (htokens : P.Rows tokens tokens')
    (h : ∀ token rest rest', P.Fits token → P.Rows rest rest' →
      P.Ends R (f (token, rest)) (g (token.relabel P.place, rest'))) :
    P.Ends R (nextQuoted opener tokens >>= f)
      (nextQuoted (opener.relabel P.place) tokens' >>= g) := by
  cases htokens with
  | cut tokens' hcut => exact .cut _ hcut
  | done eof => exact .error (hopener.blamed .quoteAtEnd rfl)
  | broken hfault => exact .error hfault
  | more htoken hrest => exact h _ _ _ htoken hrest

theorem ends_close {opener : Token} {what : String} {tokens tokens' : Tokens}
    {f g : Tokens → Except Fault β} (hopener : P.Fits opener) (htokens : P.Rows tokens tokens')
    (h : ∀ rest rest', P.Rows rest rest' → P.Ends R (f rest) (g rest')) :
    P.Ends R (close opener what tokens >>= f)
      (close (opener.relabel P.place) what tokens' >>= g) := by
  have hclose : P.Ends P.Rows (close opener what tokens)
      (close (opener.relabel P.place) what tokens') :=
    ends_next hopener htokens fun token rest rest' htoken hrest =>
      .ite (fun _ => .ok hrest) fun _ => ends_failShowing htoken fun _ => rfl
  exact hclose.bind fun hrest => h _ _ hrest

theorem ends_atom {token : Token} (htoken : P.Fits token) :
    P.Ends (fun form form' => form' = form.relabel P.place) (atom token)
      (atom (token.relabel P.place)) := by
  obtain ⟨tag, payload, place⟩ := token
  unfold atom
  dsimp only [Token.relabel]
  split
  · rename_i digits
    cases hparse : Number.parse digits.toList with
    | ok value => exact .ok (by simp [Token.relabel])
    | error fault =>
      cases fault with
      | literal issue => exact .error (htoken.blamed (.badNumber issue) rfl)
      | _ => exact .error (P.number hparse nofun)
  · exact .ok (by simp [Token.relabel])

theorem ends_parameters {opener : Token} {tokens tokens' : Tokens} (hopener : P.Fits opener)
    (htokens : P.Rows tokens tokens') (seen : List String) :
    P.OnForms (parameters opener seen tokens)
      (parameters (opener.relabel P.place) seen tokens') := by
  induction htokens generalizing seen with
  | cut tokens' hcut => exact .cut _ hcut
  | done eof => exact .error (hopener.blamed .unmatchedParen rfl)
  | broken hfault => exact .error hfault
  | @more token rest rest' htoken hrest ih =>
    obtain ⟨text, htext⟩ := htoken.plain
    rw [parameters, parameters]
    refine .ite (fun _ => ends_ok rfl hrest) fun _ => .ite (fun _ => ?_) fun _ =>
      ends_failShowing htoken fun _ => rfl
    rw [Token.relabel_payload, htext, ok_bind, ok_bind]
    refine .ite (fun _ => ends_failAt htoken rfl) fun _ => ?_
    refine ends_bind (ih (text :: seen)) fun names after after' hafter => ?_
    exact ends_ok (by simp) hafter

end Sequences

/-- What each part of the reader ends in, with `fuel` steps and with `fuel'` steps. -/
structure Agrees (P : Pairing) (fuel fuel' : Nat) : Prop where
  expression {token tokens tokens'} : P.Fits token → P.Rows tokens tokens' →
    P.OnForm (expression fuel token tokens) (expression fuel' (token.relabel P.place) tokens')
  operands {opener dots tokens tokens'} : P.Fits opener → P.Rows tokens tokens' →
    P.OnForms (operands fuel opener dots tokens)
      (operands fuel' (opener.relabel P.place) dots tokens')
  dottedTail {dot opener depth tokens tokens'} : P.Fits opener → P.Rows tokens tokens' →
    P.OnForm (dottedTail fuel dot opener depth tokens)
      (dottedTail fuel' (dot.relabel P.place) (opener.relabel P.place) depth tokens')
  form {opener tokens tokens'} : P.Fits opener → P.Rows tokens tokens' →
    P.OnForm (form fuel opener tokens) (form fuel' (opener.relabel P.place) tokens')
  lambdaForm {head opener tokens tokens'} : P.Fits head → P.Fits opener →
    P.Rows tokens tokens' →
    P.OnForm (lambdaForm fuel head opener tokens)
      (lambdaForm fuel' (head.relabel P.place) (opener.relabel P.place) tokens')
  defineForm {head opener tokens tokens'} : P.Fits head → P.Fits opener →
    P.Rows tokens tokens' →
    P.OnForm (defineForm fuel head opener tokens)
      (defineForm fuel' (head.relabel P.place) (opener.relabel P.place) tokens')
  condClauses {opener tokens tokens'} : P.Fits opener → P.Rows tokens tokens' →
    P.OnForms (condClauses fuel opener tokens)
      (condClauses fuel' (opener.relabel P.place) tokens')
  letBindings {opener label tokens tokens'} : P.Fits opener → P.Rows tokens tokens' →
    P.OnForms (letBindings fuel opener label tokens)
      (letBindings fuel' (opener.relabel P.place) label tokens')
  letForm {head opener tokens tokens'} : P.Fits head → P.Fits opener → P.Rows tokens tokens' →
    P.OnForm (letForm fuel head opener tokens)
      (letForm fuel' (head.relabel P.place) (opener.relabel P.place) tokens')
  quoting {token tokens tokens'} : P.Fits token → P.Rows tokens tokens' →
    P.OnForm (quoting fuel token tokens) (quoting fuel' (token.relabel P.place) tokens')
  datum {token depth tokens tokens'} : P.Fits token → P.Rows tokens tokens' →
    P.OnForm (datum fuel token depth tokens) (datum fuel' (token.relabel P.place) depth tokens')
  datumQuoting {token opener depth tokens tokens'} : P.Fits opener →
    P.Rows tokens tokens' →
    P.OnForm (datumQuoting fuel token opener depth tokens)
      (datumQuoting fuel' (token.relabel P.place) (opener.relabel P.place) depth tokens')
  datumList {opener depth tokens tokens'} : P.Fits opener → P.Rows tokens tokens' →
    P.OnForm (datumList fuel opener depth tokens)
      (datumList fuel' (opener.relabel P.place) depth tokens')
  datumItems {opener depth tokens tokens'} : P.Fits opener → P.Rows tokens tokens' →
    P.OnForms (datumItems fuel opener depth tokens)
      (datumItems fuel' (opener.relabel P.place) depth tokens')

namespace Agrees

variable {P : Pairing} {fuel fuel' : Nat} (ih : P.Agrees fuel fuel') {tokens tokens' : Tokens}
  (htokens : P.Rows tokens tokens')

include ih htokens

theorem step_expression {token : Token} (htoken : P.Fits token) :
    P.OnForm (Reader.expression (fuel + 1) token tokens)
      (Reader.expression (fuel' + 1) (token.relabel P.place) tokens') := by
  rw [Reader.expression, Reader.expression]
  refine .ite (fun _ => ih.form htoken htokens) fun _ => .ite (fun _ => ih.quoting htoken htokens)
    fun _ => .ite (fun _ => ?_) fun _ => ends_failShowing htoken fun _ => rfl
  refine (ends_atom htoken).bind ?_
  rintro f _ rfl
  exact ends_ok rfl htokens

theorem step_operands {opener : Token} (hopener : P.Fits opener) (dots : Bool) :
    P.OnForms (Reader.operands (fuel + 1) opener dots tokens)
      (Reader.operands (fuel' + 1) (opener.relabel P.place) dots tokens') := by
  rw [Reader.operands, Reader.operands]
  refine ends_next hopener htokens fun token rest rest' htoken hrest => ?_
  refine .ite (fun _ => ends_ok rfl hrest) fun _ => .ite (fun _ => ?_) fun _ => ?_
  · refine .ite (fun _ => ?_) fun _ => ends_failAt htoken rfl
    refine ends_bind (ih.dottedTail hopener hrest) fun tail after after' hafter => ?_
    exact ends_ok rfl hafter
  · refine ends_bind (ih.expression htoken hrest) fun first after after' hafter => ?_
    refine ends_bind (ih.operands hopener hafter) fun others last last' hlast => ?_
    exact ends_ok rfl hlast

theorem step_dottedTail (dot : Token) {opener : Token} (hopener : P.Fits opener)
    (depth : Option Nat) :
    P.OnForm (Reader.dottedTail (fuel + 1) dot opener depth tokens)
      (Reader.dottedTail (fuel' + 1) (dot.relabel P.place) (opener.relabel P.place) depth
        tokens') := by
  rw [Reader.dottedTail, Reader.dottedTail]
  refine ends_next hopener htokens fun token rest rest' htoken hrest => ?_
  refine .ite (fun _ => ends_failAt htoken rfl) fun _ => ?_
  have hend (tail : Form) {rest rest' : Tokens} (hrest : P.Rows rest rest') :
      P.OnForm
        (next opener rest >>= fun closer =>
          if closer.1.tag = .rparen then pure (.compoundAt .dot [tail] dot, closer.2)
          else failAt closer.1 .dotBeforeEnd)
        (next (opener.relabel P.place) rest' >>= fun closer =>
          if closer.1.tag = .rparen then
            pure (.compoundAt .dot [tail.relabel P.place] (dot.relabel P.place), closer.2)
          else failAt closer.1 .dotBeforeEnd) :=
    ends_next hopener hrest fun closer last last' hcloser hlast =>
      .ite (fun _ => ends_ok (by simp) hlast) fun _ => ends_failAt hcloser rfl
  cases depth with
  | none =>
    exact ends_bind (ih.expression htoken hrest) fun tail _ _ hafter => hend tail hafter
  | some depth =>
    exact ends_bind (ih.datum htoken hrest) fun tail _ _ hafter => hend tail hafter

theorem step_form {opener : Token} (hopener : P.Fits opener) :
    P.OnForm (Reader.form (fuel + 1) opener tokens)
      (Reader.form (fuel' + 1) (opener.relabel P.place) tokens') := by
  rw [Reader.form, Reader.form]
  refine ends_next hopener htokens fun head rest rest' hhead hrest => ?_
  refine .ite (fun _ => ends_ok (by simp) hrest) fun _ => ?_
  refine .ite (fun _ => ?_) fun _ => ?_
  · refine ends_bind (ih.expression hhead hrest) fun operator after after' hafter => ?_
    refine ends_bind (ih.operands hopener hafter) fun arguments last last' hlast => ?_
    exact ends_ok (by simp) hlast
  refine .ite (fun _ => ?_) fun _ => ?_
  · refine ends_bind (ih.operands hopener hrest) fun arguments last last' hlast => ?_
    exact ends_ok (by rw [Form.relabel_mk]) hlast
  refine .ite (fun _ => ?_) fun _ => ?_
  · refine (ends_atom hhead).bind ?_
    rintro first _ rfl
    refine ends_bind (ih.operands hopener hrest) fun others last last' hlast => ?_
    exact ends_ok (by simp) hlast
  refine .ite (fun _ => ih.lambdaForm hhead hopener hrest) fun _ => ?_
  refine .ite (fun _ => ih.defineForm hhead hopener hrest) fun _ => ?_
  refine .ite (fun _ => ?_) fun _ => .ite (fun _ => ih.letForm hhead hopener hrest) fun _ => ?_
  · refine ends_bind (ih.condClauses hopener hrest) fun clauses last last' hlast => ?_
    exact ends_ok (by rw [Form.relabel_mk]) hlast
  refine .ite (fun _ => ?_) fun _ => ends_failShowing hhead fun _ => rfl
  refine ends_bind (ih.quoting hhead hrest) fun quoted after after' hafter => ?_
  exact ends_close hopener hafter fun last last' hlast => ends_ok rfl hlast

theorem step_lambdaForm {head opener : Token} (hhead : P.Fits head) (hopener : P.Fits opener) :
    P.OnForm (Reader.lambdaForm (fuel + 1) head opener tokens)
      (Reader.lambdaForm (fuel' + 1) (head.relabel P.place) (opener.relabel P.place)
        tokens') := by
  rw [Reader.lambdaForm, Reader.lambdaForm]
  refine ends_next hopener htokens fun token rest rest' htoken hrest => ?_
  refine .ite (fun _ => ?_) fun _ => ends_failAt htoken rfl
  refine ends_bind (ends_parameters hopener hrest []) fun params after after' hafter => ?_
  refine ends_bind (ih.operands hopener hafter) fun body last last' hlast => ?_
  dsimp only
  rw [List.isEmpty_map]
  refine .ite (fun _ => ends_failAt hhead rfl) fun _ => ends_ok ?_ hlast
  rw [Form.relabel_mk, List.map_cons, Form.relabel_compoundAt]

theorem step_defineForm {head opener : Token} (hhead : P.Fits head) (hopener : P.Fits opener) :
    P.OnForm (Reader.defineForm (fuel + 1) head opener tokens)
      (Reader.defineForm (fuel' + 1) (head.relabel P.place) (opener.relabel P.place)
        tokens') := by
  rw [Reader.defineForm, Reader.defineForm]
  refine ends_next hopener htokens fun name rest rest' hname hrest => ?_
  refine .ite (fun _ => ?_) fun _ => ends_failShowing hname fun _ => rfl
  refine ends_bind (ih.operands hopener hrest) fun values last last' hlast => ?_
  rcases values with _ | ⟨value, _ | ⟨second, others⟩⟩
  · exact ends_failAt hhead rfl
  · exact ends_ok (by simp [Form.relabel_mk]) hlast
  · exact ends_failAt hhead rfl

theorem step_condClauses {opener : Token} (hopener : P.Fits opener) :
    P.OnForms (Reader.condClauses (fuel + 1) opener tokens)
      (Reader.condClauses (fuel' + 1) (opener.relabel P.place) tokens') := by
  rw [Reader.condClauses, Reader.condClauses]
  refine ends_next hopener htokens fun token rest rest' htoken hrest => ?_
  refine .ite (fun _ => ends_ok rfl hrest) fun _ => .ite (fun _ => ?_) fun _ =>
    ends_failShowing htoken fun _ => rfl
  refine ends_bind (ih.operands htoken hrest) fun items after after' hafter => ?_
  dsimp only
  rw [List.isEmpty_map]
  refine .ite (fun _ => ends_failAt htoken rfl) fun _ => ?_
  refine ends_bind (ih.condClauses hopener hafter) fun others last last' hlast => ?_
  exact ends_ok (by simp) hlast

theorem step_letBindings {opener : Token} (hopener : P.Fits opener) (label : String) :
    P.OnForms (Reader.letBindings (fuel + 1) opener label tokens)
      (Reader.letBindings (fuel' + 1) (opener.relabel P.place) label tokens') := by
  rw [Reader.letBindings, Reader.letBindings]
  refine ends_next hopener htokens fun token rest rest' htoken hrest => ?_
  refine .ite (fun _ => ends_ok rfl hrest) fun _ => .ite (fun _ => ?_) fun _ =>
    ends_failAt htoken rfl
  refine ends_next hopener hrest fun name rest rest' hname hrest => ?_
  refine .ite (fun _ => ?_) fun _ => ends_failShowing hname fun _ => rfl
  refine ends_next hopener hrest fun first rest rest' hfirst hrest => ?_
  refine .ite (fun _ => ?_) fun _ => ?_
  · obtain ⟨text, htext⟩ := hname.plain
    rw [Token.relabel_payload, htext]
    exact ends_failAt hname rfl
  · refine ends_bind (ih.expression hfirst hrest) fun value after after' hafter => ?_
    refine ends_close hopener hafter fun rest rest' hrest => ?_
    refine ends_bind (ih.letBindings hopener hrest) fun others last last' hlast => ?_
    exact ends_ok (by simp) hlast

theorem step_letForm {head opener : Token} (hhead : P.Fits head) (hopener : P.Fits opener) :
    P.OnForm (Reader.letForm (fuel + 1) head opener tokens)
      (Reader.letForm (fuel' + 1) (head.relabel P.place) (opener.relabel P.place) tokens') := by
  rw [Reader.letForm, Reader.letForm]
  refine ends_next hopener htokens fun token rest rest' htoken hrest => ?_
  -- the bindings and the body follow the name, or the keyword if there is no name
  have hlist {listOpener : Token} {rest rest' : Tokens} {name name' : List Form}
      (hname : name' = name.map (Form.relabel P.place)) (hlistOpener : P.Fits listOpener)
      (hrest : P.Rows rest rest') :
      P.OnForm
        (if listOpener.tag = .lparen then
          Reader.letBindings fuel opener head.tag.keyword rest >>= fun bindings =>
            Reader.operands fuel opener false bindings.2 >>= fun body =>
              if body.1.isEmpty = true then failAt head (.emptyBody head.tag.keyword)
              else pure (⟨head, name ++ .compoundAt .bindings bindings.1 listOpener :: body.1,
                true⟩, body.2)
          else failAt listOpener (.bindingList head.tag.keyword))
        (if listOpener.tag = .lparen then
          Reader.letBindings fuel' (opener.relabel P.place) head.tag.keyword rest' >>=
            fun bindings =>
              Reader.operands fuel' (opener.relabel P.place) false bindings.2 >>= fun body =>
                if body.1.isEmpty = true then
                  failAt (head.relabel P.place) (.emptyBody head.tag.keyword)
                else pure (⟨head.relabel P.place, name' ++
                  .compoundAt .bindings bindings.1 (listOpener.relabel P.place) :: body.1, true⟩,
                    body.2)
          else failAt (listOpener.relabel P.place) (.bindingList head.tag.keyword)) := by
    refine .ite (fun _ => ?_) fun _ => ends_failAt hlistOpener rfl
    refine ends_bind (ih.letBindings hopener hrest) fun bindings after after' hafter => ?_
    refine ends_bind (ih.operands hopener hafter) fun body last last' hlast => ?_
    dsimp only
    rw [List.isEmpty_map]
    refine .ite (fun _ => ends_failAt hhead rfl) fun _ => ends_ok ?_ hlast
    rw [Form.relabel_mk, List.map_append, List.map_cons, Form.relabel_compoundAt, hname]
  have hname : (if (token.tag = .symbol && head.tag = .letAll) = true
      then [Form.leaf (token.relabel P.place)] else []) =
      (if (token.tag = .symbol && head.tag = .letAll) = true
        then [Form.leaf token] else []).map (Form.relabel P.place) := by
    split <;> simp
  refine .ite (fun _ => ?_) fun _ => hlist hname htoken hrest
  exact ends_next hopener hrest fun listOpener _ _ hlistOpener hrest =>
    hlist hname hlistOpener hrest

theorem step_quoting {token : Token} (htoken : P.Fits token) :
    P.OnForm (Reader.quoting (fuel + 1) token tokens)
      (Reader.quoting (fuel' + 1) (token.relabel P.place) tokens') := by
  rw [Reader.quoting, Reader.quoting, Token.relabel_tag]
  split
  · exact ends_failAt htoken rfl
  · refine ends_nextQuoted htoken htokens fun first rest rest' hfirst hrest => ?_
    refine ends_bind (ih.datum hfirst hrest) fun quoted last last' hlast => ?_
    exact ends_ok (by simp) hlast

theorem step_datum {token : Token} (htoken : P.Fits token) (depth : Nat) :
    P.OnForm (Reader.datum (fuel + 1) token depth tokens)
      (Reader.datum (fuel' + 1) (token.relabel P.place) depth tokens') := by
  rw [Reader.datum, Reader.datum]
  refine .ite (fun _ => ih.datumList htoken htokens) fun _ =>
    .ite (fun _ => ih.datumQuoting htoken htokens) fun _ => .ite (fun _ => ?_) fun _ =>
      .ite (fun _ => ?_) fun _ => ends_failShowing htoken fun _ => rfl
  · refine (ends_atom htoken).bind ?_
    rintro f _ rfl
    exact ends_ok rfl htokens
  · refine ends_ok ?_ htokens
    rw [Form.relabel_leaf]
    rfl

theorem step_datumQuoting (token : Token) {opener : Token} (hopener : P.Fits opener)
    (depth : Nat) :
    P.OnForm (Reader.datumQuoting (fuel + 1) token opener depth tokens)
      (Reader.datumQuoting (fuel' + 1) (token.relabel P.place) (opener.relabel P.place) depth
        tokens') := by
  rw [Reader.datumQuoting, Reader.datumQuoting]
  refine ends_nextQuoted hopener htokens fun first rest rest' hfirst hrest => ?_
  have hquoted {m m' : Except Fault (Form × Tokens)} (h : P.OnForm m m') :
      P.OnForm (m >>= fun read => pure (.compoundAt token.tag [read.1] token, read.2))
        (m' >>= fun read =>
          pure (.compoundAt token.tag [read.1] (token.relabel P.place), read.2)) :=
    ends_bind h fun quoted last last' hlast => ends_ok (by simp) hlast
  refine .ite (fun _ => hquoted (ih.expression hfirst hrest)) fun _ => ?_
  refine .ite (fun _ => hquoted (ih.datum hfirst hrest)) fun _ => ?_
  refine .ite (fun _ => hquoted (ih.datum hfirst hrest)) fun _ => ?_
  exact hquoted (ih.datum hfirst hrest)

theorem step_datumList {opener : Token} (hopener : P.Fits opener) (depth : Nat) :
    P.OnForm (Reader.datumList (fuel + 1) opener depth tokens)
      (Reader.datumList (fuel' + 1) (opener.relabel P.place) depth tokens') := by
  rw [Reader.datumList, Reader.datumList]
  refine ends_next hopener htokens fun token rest rest' htoken hrest => ?_
  refine .ite (fun _ => ends_ok (by simp) hrest) fun _ => .ite (fun _ => ?_) fun _ =>
    .ite (fun _ => ends_failAt htoken rfl) fun _ => ?_
  · refine ends_bind (ih.datumQuoting hopener hrest) fun quoted after after' hafter => ?_
    exact ends_close hopener hafter fun last last' hlast => ends_ok rfl hlast
  · refine ends_bind (ih.datum htoken hrest) fun first after after' hafter => ?_
    refine ends_bind (ih.datumItems hopener hafter) fun others last last' hlast => ?_
    exact ends_ok (by simp) hlast

theorem step_datumItems {opener : Token} (hopener : P.Fits opener) (depth : Nat) :
    P.OnForms (Reader.datumItems (fuel + 1) opener depth tokens)
      (Reader.datumItems (fuel' + 1) (opener.relabel P.place) depth tokens') := by
  rw [Reader.datumItems, Reader.datumItems]
  refine ends_next hopener htokens fun token rest rest' htoken hrest => ?_
  refine .ite (fun _ => ends_ok rfl hrest) fun _ => .ite (fun _ => ?_) fun _ => ?_
  · refine ends_bind (ih.dottedTail hopener hrest) fun tail last last' hlast => ?_
    exact ends_ok rfl hlast
  · refine ends_bind (ih.datum htoken hrest) fun first after after' hafter => ?_
    refine ends_bind (ih.datumItems hopener hafter) fun others last last' hlast => ?_
    exact ends_ok rfl hlast

omit htokens

theorem step : P.Agrees (fuel + 1) (fuel' + 1) where
  expression htoken htokens := ih.step_expression htokens htoken
  operands hopener htokens := ih.step_operands htokens hopener _
  dottedTail hopener htokens := ih.step_dottedTail htokens _ hopener _
  form hopener htokens := ih.step_form htokens hopener
  lambdaForm hhead hopener htokens := ih.step_lambdaForm htokens hhead hopener
  defineForm hhead hopener htokens := ih.step_defineForm htokens hhead hopener
  condClauses hopener htokens := ih.step_condClauses htokens hopener
  letBindings hopener htokens := ih.step_letBindings htokens hopener _
  letForm hhead hopener htokens := ih.step_letForm htokens hhead hopener
  quoting htoken htokens := ih.step_quoting htokens htoken
  datum htoken htokens := ih.step_datum htokens htoken _
  datumQuoting hopener htokens := ih.step_datumQuoting htokens _ hopener _
  datumList hopener htokens := ih.step_datumList htokens hopener _
  datumItems hopener htokens := ih.step_datumItems htokens hopener _

end Agrees

variable {P : Pairing}

/-- Without steps both readings give up, or only the first one does. -/
theorem agrees_zero {fuel' : Nat} (hfuel : P.Fueled 0 fuel') : P.Agrees 0 fuel' := by
  rcases hfuel with rfl | ⟨hcut, -⟩
  · constructor <;> intros <;>
      simp only [expression, operands, dottedTail, form, lambdaForm, defineForm, condClauses,
        letBindings, letForm, quoting, datum, datumQuoting, datumList, datumItems] <;>
      exact .error P.tooDeep
  · constructor <;> intros <;>
      simp only [expression, operands, dottedTail, form, lambdaForm, defineForm, condClauses,
        letBindings, letForm, quoting, datum, datumQuoting, datumList, datumItems] <;>
      exact .cut _ hcut

theorem Fueled.of_succ {fuel fuel' : Nat} (h : P.Fueled (fuel + 1) fuel') :
    ∃ less, fuel' = less + 1 ∧ P.Fueled fuel less := by
  rcases h with rfl | ⟨hcut, hle⟩
  · exact ⟨fuel, rfl, .inl rfl⟩
  · exact ⟨fuel' - 1, by omega, .inr ⟨hcut, by omega⟩⟩

/-- Readings of tokens that answer to each other do so. -/
theorem agrees {fuel fuel' : Nat} (hfuel : P.Fueled fuel fuel') : P.Agrees fuel fuel' := by
  induction fuel generalizing fuel' with
  | zero => exact agrees_zero hfuel
  | succ fuel ih =>
    obtain ⟨less, rfl, hless⟩ := hfuel.of_succ
    exact (ih hless).step

theorem Rows.fueled {tokens tokens' : Tokens} (h : P.Rows tokens tokens') :
    P.Fueled tokens.length tokens'.length := by
  induction h with
  | cut tokens' hcut => exact .inr ⟨hcut, Nat.zero_le _⟩
  | done eof => exact .inl rfl
  | broken hfault => exact .inl rfl
  | more _ _ ih => exact ih.imp (congrArg (· + 1)) (And.imp_right Nat.succ_le_succ)

/-- What is read of two texts: forms and faults that answer to each other, or, if the first
reading was cut off, forms of which the first ones do. -/
inductive Matches (P : Pairing) : List Form × Option Fault → List Form × Option Fault → Prop where
  | whole (forms : List Form) {f? g? : Option Fault} : Option.Rel P.faults f? g? →
      Matches P (forms, f?) (forms.map (Form.relabel P.place), g?)
  | cut (forms more : List Form) (g? : Option Fault) : P.cut →
      Matches P (forms, some .tooDeep) (forms.map (Form.relabel P.place) ++ more, g?)

theorem Matches.cons {forms forms' : List Form} {f? g? : Option Fault}
    (h : P.Matches (forms, f?) (forms', g?)) (form : Form) :
    P.Matches (form :: forms, f?) (form.relabel P.place :: forms', g?) := by
  cases h with
  | whole forms hfault => exact .whole (form :: forms) hfault
  | cut forms more g? hcut => exact .cut (form :: forms) more g? hcut

theorem matches_readLoop {fuel fuel' : Nat} (hfuel : P.Fueled fuel fuel')
    {tokens tokens' : Tokens} (htokens : P.Rows tokens tokens') :
    P.Matches (readLoop fuel tokens []) (readLoop fuel' tokens' []) := by
  induction fuel generalizing fuel' tokens tokens' with
  | zero =>
    rcases hfuel with rfl | ⟨hcut, -⟩
    · exact .whole [] (.some P.tooDeep)
    · exact .cut [] _ _ hcut
  | succ fuel ih =>
    obtain ⟨less, rfl, hless⟩ := hfuel.of_succ
    cases htokens with
    | cut tokens' hcut => exact .cut [] _ _ hcut
    | done eof => exact .whole [] .none
    | broken hfault => exact .whole [] (.some hfault)
    | @more token rest rest' htoken hrest =>
      have hsteps : P.Fueled (fuelFor (.more token rest))
          (fuelFor (.more (token.relabel P.place) rest')) :=
        hrest.fueled.imp (fun h => by rw [fuelFor, fuelFor, Tokens.length, Tokens.length, h])
          (And.imp_right fun h => by rw [fuelFor, fuelFor, Tokens.length, Tokens.length]; omega)
      have hone := (agrees hsteps).expression htoken hrest
      rw [readLoop, readLoop, read, read]
      generalize expression _ token rest = m at hone ⊢
      generalize expression _ (token.relabel P.place) rest' = n at hone ⊢
      cases hone with
      | cut n hcut => exact .cut [] _ _ hcut
      | error hfault => exact .whole [] (.some hfault)
      | @ok a b hmoved =>
        obtain ⟨form, after⟩ := a
        obtain ⟨_, after'⟩ := b
        obtain ⟨rfl, hafter⟩ := hmoved
        have hothers := (ih hless hafter).cons form
        simp only [ok_bind]
        change P.Matches (readLoop fuel after [form]) (readLoop less after' [form.relabel P.place])
        rw [readLoop_eq fuel, readLoop_eq less]
        exact hothers

/-- All forms of tokens that answer to each other do so. -/
theorem matches_readTokens {tokens tokens' : Tokens} (htokens : P.Rows tokens tokens') :
    P.Matches (readTokens tokens) (readTokens tokens') :=
  matches_readLoop (htokens.fueled.imp (congrArg (· + 1)) (And.imp_right Nat.succ_le_succ)) htokens

section Within

variable {G : Fault → Prop} {htooDeep : G .tooDeep}
  {hnumber : ∀ {digits fault}, Number.parse digits = .error fault →
    (∀ issue, fault ≠ .literal issue) → G fault}

/-- Readings of one text of which the first one may be cut off; all faults of the reader are
to be in `G`. -/
def within (G : Fault → Prop) (htooDeep : G .tooDeep)
    (hnumber : ∀ {digits fault}, Number.parse digits = .error fault →
      (∀ issue, fault ≠ .literal issue) → G fault) : Pairing where
  place := some
  faults f g := g = f ∧ G f
  cut := True
  tooDeep := ⟨rfl, htooDeep⟩
  number hparse hliteral := ⟨rfl, hnumber hparse hliteral⟩

theorem fits_within {token : Token} : (within G htooDeep hnumber).Fits token ↔
    token.Plain ∧ ∀ issue, issue.ofEvaluation = false → G (.malformed issue token.place) := by
  constructor
  · intro h
    exact ⟨h.plain, fun issue hissue => (h.blamed issue hissue).2⟩
  · rintro ⟨hplain, hblamed⟩
    refine ⟨hplain, fun issue hissue => ⟨?_, hblamed issue hissue⟩⟩
    change Fault.malformed issue (token.relabel some).place = _
    rw [Token.relabel_some]

theorem Rows.done_within (eof : Token) :
    (within G htooDeep hnumber).Rows (.done eof) (.done eof) := by
  have hrow := Rows.done (P := within G htooDeep hnumber) eof
  change Rows _ _ (.done (eof.relabel some)) at hrow
  rwa [Token.relabel_some] at hrow

theorem Rows.more_within {token : Token} {rest rest' : Tokens}
    (htoken : (within G htooDeep hnumber).Fits token)
    (hrest : (within G htooDeep hnumber).Rows rest rest') :
    (within G htooDeep hnumber).Rows (.more token rest) (.more token rest') := by
  have hrow := Rows.more htoken hrest
  change Rows _ _ (.more (token.relabel some) rest') at hrow
  rwa [Token.relabel_some] at hrow

/-- Either reading ends in the same forms and the same fault, or the first one was cut off. -/
theorem Matches.of_within {forms forms' : List Form} {f? g? : Option Fault}
    (h : (within G htooDeep hnumber).Matches (forms, f?) (forms', g?)) :
    (forms' = forms ∧ g? = f? ∧ ∀ fault, f? = some fault → G fault) ∨
      f? = some .tooDeep ∧ ∃ more, forms' = forms ++ more := by
  have hforms : forms.map (Form.relabel (within G htooDeep hnumber).place) = forms :=
    Form.map_relabel_some forms
  cases h with
  | whole forms hfault =>
    refine Or.inl ⟨hforms, ?_⟩
    cases hfault with
    | none => exact ⟨rfl, nofun⟩
    | some hfault => exact ⟨congrArg some hfault.1, fun fault heq => Option.some.inj heq ▸ hfault.2⟩
  | cut forms more g? _ => exact Or.inr ⟨rfl, more, by rw [hforms]⟩

end Within

end Pairing

end Reader

end TowerLisp
