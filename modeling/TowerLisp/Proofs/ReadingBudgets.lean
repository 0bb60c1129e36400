import TowerLisp.Proofs.PairedReading

/-!
Reading comes to an end. The reader never runs out of the steps that it is given: a step that
reads no token is followed by one that does. So what goes wrong with some tokens is a fault of
the reader at one of them, a number among them that is out of bounds, or what the tokens break off
with.
-/

namespace TowerLisp

/-- What the reader finds wrong with tokens. -/
def SyntaxIssue.ofReader : SyntaxIssue → Bool
  | unmatchedParen | notClosed .. | badNumber _ | unexpectedToken _ | unexpectedQuoted _
  | unknownHead _ | unexpectedDot | dotWithoutElement | dotBeforeEnd | dotWithoutHead
  | lambdaParameters | parameterNotSymbol _ | duplicateParameter _ | lambdaBody | defineNotSymbol _
  | defineParts | clauseNotList _ | emptyClause | bindingList _ | bindingParens _
  | bindingNotSymbol _ | bindingWithoutValue _ | emptyBody _ | outsideQuasiquote _
  | quoteAtEnd => true
  | _ => false

/-- A token all of whose faults are in `G`. -/
structure Token.Blames (G : Fault → Prop) (t : Token) : Prop where
  plain : t.Plain
  issue : ∀ issue, issue.ofReader = true → G (.malformed issue t.place)
  number : ∀ {digits fault}, t.tag = .number → t.payload = .text digits →
    Number.parse digits.toList = .error fault → (∀ issue, fault ≠ .literal issue) → G fault

/-- Tokens all of whose faults are in `G`. -/
inductive Tokens.Confined (G : Fault → Prop) : Tokens → Prop where
  | done (eof : Token) : Confined G (.done eof)
  | broken {fault : Fault} : G fault → Confined G (.broken fault)
  | more {token : Token} {rest : Tokens} : token.Blames G → Confined G rest →
      Confined G (.more token rest)

namespace Reader

/-- Reading ends in a fault in `G`, or in front of `n` tokens at most, all of whose faults are
in `G`. -/
inductive Settled {α : Type} (G : Fault → Prop) (n : Nat) : Except Fault (α × Tokens) → Prop where
  | ok {a : α} {rest : Tokens} : rest.length ≤ n → rest.Confined G → Settled G n (.ok (a, rest))
  | error {fault : Fault} : G fault → Settled G n (.error fault)

section Sequences

variable {G : Fault → Prop} {α β : Type} {n k : Nat} {token opener : Token} {tokens : Tokens}

theorem Settled.bind {m : Except Fault (α × Tokens)} {f : α × Tokens → Except Fault (β × Tokens)}
    (hm : Settled G k m)
    (hf : ∀ a rest, rest.length ≤ k → rest.Confined G → Settled G n (f (a, rest))) :
    Settled G n (m >>= f) := by
  cases hm with
  | ok hlength hrest => exact hf _ _ hlength hrest
  | error hfault => exact .error hfault

theorem Settled.ite {p : Prop} [Decidable p] {m m' : Except Fault (α × Tokens)}
    (hm : p → Settled G n m) (hm' : ¬ p → Settled G n m') :
    Settled G n (if p then m else m') := by
  split
  · exact hm ‹_›
  · exact hm' ‹_›

theorem settled_failAt (htoken : token.Blames G) {issue : SyntaxIssue}
    (hissue : issue.ofReader = true) :
    Settled G n (failAt token issue : Except Fault (α × Tokens)) :=
  .error (htoken.issue issue hissue)

theorem settled_failShowing (htoken : token.Blames G) {issue : String → SyntaxIssue}
    (hissue : ∀ text, (issue text).ofReader = true) :
    Settled G n (failShowing token issue : Except Fault (α × Tokens)) := by
  obtain ⟨text, htext⟩ := htoken.plain.shown
  rw [failShowing, htext]
  exact settled_failAt htoken (hissue text)

theorem settled_next (hopener : opener.Blames G) (htokens : tokens.Confined G)
    {f : Token × Tokens → Except Fault (β × Tokens)}
    (hf : ∀ token rest, token.Blames G → rest.Confined G → tokens.length = rest.length + 1 →
      Settled G n (f (token, rest))) : Settled G n (next opener tokens >>= f) := by
  cases htokens with
  | done eof => exact .error (hopener.issue .unmatchedParen rfl)
  | broken hfault => exact .error hfault
  | more htoken hrest => exact hf _ _ htoken hrest rfl

theorem settled_nextQuoted (hopener : opener.Blames G) (htokens : tokens.Confined G)
    {f : Token × Tokens → Except Fault (β × Tokens)}
    (hf : ∀ token rest, token.Blames G → rest.Confined G → tokens.length = rest.length + 1 →
      Settled G n (f (token, rest))) : Settled G n (nextQuoted opener tokens >>= f) := by
  cases htokens with
  | done eof => exact .error (hopener.issue .quoteAtEnd rfl)
  | broken hfault => exact .error hfault
  | more htoken hrest => exact hf _ _ htoken hrest rfl

theorem settled_close (hopener : opener.Blames G) (htokens : tokens.Confined G) {what : String}
    {f : Tokens → Except Fault (β × Tokens)}
    (hf : ∀ rest, rest.Confined G → tokens.length = rest.length + 1 → Settled G n (f rest)) :
    Settled G n (close opener what tokens >>= f) := by
  rw [close, bind_assoc]
  refine settled_next hopener htokens fun closer rest hcloser hrest hlength => ?_
  dsimp only
  split
  · exact hf rest hrest hlength
  · obtain ⟨text, htext⟩ := hcloser.plain.shown
    rw [failShowing, htext]
    exact .error (hcloser.issue _ rfl)

theorem settled_atom (htoken : token.Blames G) {f : Form → Except Fault (β × Tokens)}
    (hf : ∀ form, Settled G n (f form)) : Settled G n (atom token >>= f) := by
  obtain ⟨tag, payload, place⟩ := token
  unfold atom
  dsimp only
  split
  · rename_i digits
    cases hparse : Number.parse digits.toList with
    | ok value => exact hf _
    | error fault =>
      cases fault with
      | literal issue => exact .error (htoken.issue (.badNumber issue) rfl)
      | _ => exact .error (htoken.number rfl rfl hparse nofun)
  · exact hf _

theorem settled_parameters (hopener : opener.Blames G) (htokens : tokens.Confined G)
    (seen : List String) : Settled G tokens.length (parameters opener seen tokens) := by
  induction htokens generalizing seen with
  | done eof => exact .error (hopener.issue .unmatchedParen rfl)
  | broken hfault => exact .error hfault
  | @more token rest htoken hrest ih =>
    obtain ⟨text, htext⟩ := htoken.plain
    rw [parameters]
    refine .ite (fun _ => .ok (Nat.le_succ _) hrest) fun _ => .ite (fun _ => ?_) fun _ =>
      settled_failShowing htoken fun _ => rfl
    rw [htext, ok_bind]
    refine .ite (fun _ => settled_failAt htoken rfl) fun _ => ?_
    refine (ih (text :: seen)).bind fun names after hlength hafter => ?_
    exact .ok (Nat.le_succ_of_le hlength) hafter

end Sequences

/-- What each part of the reader ends in with enough steps: two for each token, one for itself and,
if it leaves its own token to another part, one for that. -/
structure Settles (G : Fault → Prop) (fuel : Nat) : Prop where
  expression {token tokens} : token.Blames G → tokens.Confined G → 2 * tokens.length + 2 ≤ fuel →
    Settled G tokens.length (expression fuel token tokens)
  operands {opener tokens} : opener.Blames G → tokens.Confined G → 2 * tokens.length + 1 ≤ fuel →
    ∀ dots, Settled G tokens.length (operands fuel opener dots tokens)
  dottedTail {opener tokens} : opener.Blames G → tokens.Confined G →
    2 * tokens.length + 1 ≤ fuel →
    ∀ dot depth, Settled G tokens.length (dottedTail fuel dot opener depth tokens)
  form {opener tokens} : opener.Blames G → tokens.Confined G → 2 * tokens.length + 1 ≤ fuel →
    Settled G tokens.length (form fuel opener tokens)
  lambdaForm {head opener tokens} : head.Blames G → opener.Blames G → tokens.Confined G →
    2 * tokens.length + 1 ≤ fuel → Settled G tokens.length (lambdaForm fuel head opener tokens)
  defineForm {head opener tokens} : head.Blames G → opener.Blames G → tokens.Confined G →
    2 * tokens.length + 1 ≤ fuel → Settled G tokens.length (defineForm fuel head opener tokens)
  condClauses {opener tokens} : opener.Blames G → tokens.Confined G →
    2 * tokens.length + 1 ≤ fuel → Settled G tokens.length (condClauses fuel opener tokens)
  letBindings {opener tokens} : opener.Blames G → tokens.Confined G →
    2 * tokens.length + 1 ≤ fuel →
    ∀ label, Settled G tokens.length (letBindings fuel opener label tokens)
  letForm {head opener tokens} : head.Blames G → opener.Blames G → tokens.Confined G →
    2 * tokens.length + 1 ≤ fuel → Settled G tokens.length (letForm fuel head opener tokens)
  quoting {token tokens} : token.Blames G → tokens.Confined G → 2 * tokens.length + 1 ≤ fuel →
    Settled G tokens.length (quoting fuel token tokens)
  datum {token tokens} : token.Blames G → tokens.Confined G → 2 * tokens.length + 2 ≤ fuel →
    ∀ depth, Settled G tokens.length (datum fuel token depth tokens)
  datumQuoting {opener tokens} : opener.Blames G → tokens.Confined G →
    2 * tokens.length + 1 ≤ fuel →
    ∀ token depth, Settled G tokens.length (datumQuoting fuel token opener depth tokens)
  datumList {opener tokens} : opener.Blames G → tokens.Confined G → 2 * tokens.length + 1 ≤ fuel →
    ∀ depth, Settled G tokens.length (datumList fuel opener depth tokens)
  datumItems {opener tokens} : opener.Blames G → tokens.Confined G →
    2 * tokens.length + 1 ≤ fuel →
    ∀ depth, Settled G tokens.length (datumItems fuel opener depth tokens)

namespace Settles

variable {G : Fault → Prop} {fuel : Nat} (ih : Settles G fuel) {tokens : Tokens}
  (htokens : tokens.Confined G)

include ih htokens

theorem step_expression {token : Token} (htoken : token.Blames G)
    (hfuel : 2 * tokens.length + 2 ≤ fuel + 1) :
    Settled G tokens.length (Reader.expression (fuel + 1) token tokens) := by
  rw [Reader.expression]
  refine .ite (fun _ => ih.form htoken htokens (by omega)) fun _ =>
    .ite (fun _ => ih.quoting htoken htokens (by omega)) fun _ => .ite (fun _ => ?_) fun _ =>
      settled_failShowing htoken fun _ => rfl
  exact settled_atom htoken fun form => .ok (Nat.le_refl _) htokens

theorem step_operands {opener : Token} (hopener : opener.Blames G) (dots : Bool)
    (hfuel : 2 * tokens.length + 1 ≤ fuel + 1) :
    Settled G tokens.length (Reader.operands (fuel + 1) opener dots tokens) := by
  rw [Reader.operands]
  refine settled_next hopener htokens fun token rest htoken hrest hlength => ?_
  refine .ite (fun _ => .ok (by omega) hrest) fun _ => .ite (fun _ => ?_) fun _ => ?_
  · refine .ite (fun _ => ?_) fun _ => settled_failAt htoken rfl
    refine (ih.dottedTail hopener hrest (by omega) _ _).bind fun tail after hafter hconfined => ?_
    exact .ok (by omega) hconfined
  · refine (ih.expression htoken hrest (by omega)).bind fun first after hafter hconfined => ?_
    refine (ih.operands hopener hconfined (by omega) _).bind fun others last hlast hothers => ?_
    exact .ok (by omega) hothers

theorem step_dottedTail {opener : Token} (hopener : opener.Blames G) (dot : Token)
    (depth : Option Nat) (hfuel : 2 * tokens.length + 1 ≤ fuel + 1) :
    Settled G tokens.length (Reader.dottedTail (fuel + 1) dot opener depth tokens) := by
  rw [Reader.dottedTail]
  refine settled_next hopener htokens fun token rest htoken hrest hlength => ?_
  refine .ite (fun _ => settled_failAt htoken rfl) fun _ => ?_
  have hend (tail : Form) {after : Tokens} (hafter : after.length ≤ rest.length)
      (hconfined : after.Confined G) : Settled G tokens.length
        (next opener after >>= fun closer =>
          if closer.1.tag = .rparen then pure (Form.compoundAt .dot [tail] dot, closer.2)
          else failAt closer.1 .dotBeforeEnd) :=
    settled_next hopener hconfined fun closer last hcloser hlast _ =>
      .ite (fun _ => .ok (show last.length ≤ _ by omega) hlast) fun _ => settled_failAt hcloser rfl
  cases depth with
  | none => exact (ih.expression htoken hrest (by omega)).bind fun tail _ => hend tail
  | some depth => exact (ih.datum htoken hrest (by omega) depth).bind fun tail _ => hend tail

theorem step_form {opener : Token} (hopener : opener.Blames G)
    (hfuel : 2 * tokens.length + 1 ≤ fuel + 1) :
    Settled G tokens.length (Reader.form (fuel + 1) opener tokens) := by
  rw [Reader.form]
  refine settled_next hopener htokens fun head rest hhead hrest hlength => ?_
  refine .ite (fun _ => .ok (by omega) hrest) fun _ => .ite (fun _ => ?_) fun _ => ?_
  · refine (ih.expression hhead hrest (by omega)).bind fun operator after hafter hconfined => ?_
    refine (ih.operands hopener hconfined (by omega) _).bind fun arguments last hlast hothers => ?_
    exact .ok (by omega) hothers
  refine .ite (fun _ => ?_) fun _ => .ite (fun _ => ?_) fun _ => ?_
  · refine (ih.operands hopener hrest (by omega) _).bind fun arguments last hlast hothers => ?_
    exact .ok (by omega) hothers
  · refine settled_atom hhead fun first => ?_
    refine (ih.operands hopener hrest (by omega) _).bind fun others last hlast hothers => ?_
    exact .ok (by omega) hothers
  have hwider {m : Except Fault (Form × Tokens)} (h : Settled G rest.length m) :
      Settled G tokens.length m := by
    cases h with
    | ok hlast hconfined => exact .ok (by omega) hconfined
    | error hfault => exact .error hfault
  refine .ite (fun _ => hwider (ih.lambdaForm hhead hopener hrest (by omega))) fun _ => ?_
  refine .ite (fun _ => hwider (ih.defineForm hhead hopener hrest (by omega))) fun _ => ?_
  refine .ite (fun _ => ?_) fun _ =>
    .ite (fun _ => hwider (ih.letForm hhead hopener hrest (by omega))) fun _ => ?_
  · refine (ih.condClauses hopener hrest (by omega)).bind fun clauses last hlast hothers => ?_
    exact .ok (by omega) hothers
  refine .ite (fun _ => ?_) fun _ => settled_failShowing hhead fun _ => rfl
  refine (ih.quoting hhead hrest (by omega)).bind fun quoted after hafter hconfined => ?_
  exact settled_close hopener hconfined fun last hlast _ => .ok (by omega) hlast

theorem step_lambdaForm {head opener : Token} (hhead : head.Blames G) (hopener : opener.Blames G)
    (hfuel : 2 * tokens.length + 1 ≤ fuel + 1) :
    Settled G tokens.length (Reader.lambdaForm (fuel + 1) head opener tokens) := by
  rw [Reader.lambdaForm]
  refine settled_next hopener htokens fun token rest htoken hrest hlength => ?_
  refine .ite (fun _ => ?_) fun _ => settled_failAt htoken rfl
  refine (settled_parameters hopener hrest []).bind fun params after hafter hconfined => ?_
  refine (ih.operands hopener hconfined (by omega) _).bind fun body last hlast hothers => ?_
  exact .ite (fun _ => settled_failAt hhead rfl) fun _ => .ok (by omega) hothers

theorem step_defineForm {head opener : Token} (hhead : head.Blames G) (hopener : opener.Blames G)
    (hfuel : 2 * tokens.length + 1 ≤ fuel + 1) :
    Settled G tokens.length (Reader.defineForm (fuel + 1) head opener tokens) := by
  rw [Reader.defineForm]
  refine settled_next hopener htokens fun name rest hname hrest hlength => ?_
  refine .ite (fun _ => ?_) fun _ => settled_failShowing hname fun _ => rfl
  refine (ih.operands hopener hrest (by omega) _).bind fun values last hlast hothers => ?_
  rcases values with _ | ⟨value, _ | ⟨second, others⟩⟩
  · exact settled_failAt hhead rfl
  · exact .ok (by omega) hothers
  · exact settled_failAt hhead rfl

theorem step_condClauses {opener : Token} (hopener : opener.Blames G)
    (hfuel : 2 * tokens.length + 1 ≤ fuel + 1) :
    Settled G tokens.length (Reader.condClauses (fuel + 1) opener tokens) := by
  rw [Reader.condClauses]
  refine settled_next hopener htokens fun token rest htoken hrest hlength => ?_
  refine .ite (fun _ => .ok (by omega) hrest) fun _ => .ite (fun _ => ?_) fun _ =>
    settled_failShowing htoken fun _ => rfl
  refine (ih.operands htoken hrest (by omega) _).bind fun items after hafter hconfined => ?_
  refine .ite (fun _ => settled_failAt htoken rfl) fun _ => ?_
  refine (ih.condClauses hopener hconfined (by omega)).bind fun others last hlast hothers => ?_
  exact .ok (by omega) hothers

theorem step_letBindings {opener : Token} (hopener : opener.Blames G) (label : String)
    (hfuel : 2 * tokens.length + 1 ≤ fuel + 1) :
    Settled G tokens.length (Reader.letBindings (fuel + 1) opener label tokens) := by
  rw [Reader.letBindings]
  refine settled_next hopener htokens fun token rest htoken hrest hlength => ?_
  refine .ite (fun _ => .ok (by omega) hrest) fun _ => .ite (fun _ => ?_) fun _ =>
    settled_failAt htoken rfl
  refine settled_next hopener hrest fun name behind hname hbehind hlength' => ?_
  refine .ite (fun _ => ?_) fun _ => settled_failShowing hname fun _ => rfl
  refine settled_next hopener hbehind fun first inner hfirst hinner hlength'' => ?_
  refine .ite (fun _ => ?_) fun _ => ?_
  · obtain ⟨text, htext⟩ := hname.plain
    rw [htext]
    exact settled_failAt hname rfl
  · refine (ih.expression hfirst hinner (by omega)).bind fun value after hafter hconfined => ?_
    refine settled_close hopener hconfined fun closed hclosed hlength''' => ?_
    refine (ih.letBindings hopener hclosed (by omega) _).bind fun others last hlast hothers => ?_
    exact .ok (by omega) hothers

theorem step_letForm {head opener : Token} (hhead : head.Blames G) (hopener : opener.Blames G)
    (hfuel : 2 * tokens.length + 1 ≤ fuel + 1) :
    Settled G tokens.length (Reader.letForm (fuel + 1) head opener tokens) := by
  rw [Reader.letForm]
  refine settled_next hopener htokens fun token rest htoken hrest hlength => ?_
  -- the bindings and the body follow the name, or the keyword if there is no name
  have hlist {listOpener : Token} {after : Tokens} (name : List Form)
      (hlistOpener : listOpener.Blames G) (hafter : after.Confined G)
      (hlength : after.length < tokens.length) : Settled G tokens.length
        (if listOpener.tag = .lparen then
          Reader.letBindings fuel opener head.tag.keyword after >>= fun bindings =>
            Reader.operands fuel opener false bindings.2 >>= fun body =>
              if body.1.isEmpty = true then failAt head (.emptyBody head.tag.keyword)
              else pure (Form.mk head
                (name ++ .compoundAt .bindings bindings.1 listOpener :: body.1) true, body.2)
          else failAt listOpener (.bindingList head.tag.keyword)) := by
    refine .ite (fun _ => ?_) fun _ => settled_failAt hlistOpener rfl
    refine (ih.letBindings hopener hafter (by omega) _).bind fun bindings behind hbehind hbody => ?_
    refine (ih.operands hopener hbody (by omega) _).bind fun body last hlast hrest => ?_
    refine .ite (fun _ => settled_failAt hhead rfl) fun _ => ?_
    exact .ok (show last.length ≤ _ by omega) hrest
  refine .ite (fun _ => ?_) fun _ => hlist _ htoken hrest (by omega)
  exact settled_next hopener hrest fun listOpener after hlistOpener hafter hlength' =>
    hlist _ hlistOpener hafter (by omega)

theorem step_quoting {token : Token} (htoken : token.Blames G)
    (hfuel : 2 * tokens.length + 1 ≤ fuel + 1) :
    Settled G tokens.length (Reader.quoting (fuel + 1) token tokens) := by
  rw [Reader.quoting]
  split
  · exact settled_failAt htoken rfl
  · refine settled_nextQuoted htoken htokens fun first rest hfirst hrest hlength => ?_
    refine (ih.datum hfirst hrest (by omega) _).bind fun quoted last hlast hothers => ?_
    exact .ok (by omega) hothers

theorem step_datum {token : Token} (htoken : token.Blames G) (depth : Nat)
    (hfuel : 2 * tokens.length + 2 ≤ fuel + 1) :
    Settled G tokens.length (Reader.datum (fuel + 1) token depth tokens) := by
  rw [Reader.datum]
  refine .ite (fun _ => ih.datumList htoken htokens (by omega) _) fun _ =>
    .ite (fun _ => ih.datumQuoting htoken htokens (by omega) _ _) fun _ =>
      .ite (fun _ => ?_) fun _ => .ite (fun _ => .ok (Nat.le_refl _) htokens) fun _ =>
        settled_failShowing htoken fun _ => rfl
  exact settled_atom htoken fun form => .ok (Nat.le_refl _) htokens

theorem step_datumQuoting {opener : Token} (hopener : opener.Blames G) (token : Token)
    (depth : Nat) (hfuel : 2 * tokens.length + 1 ≤ fuel + 1) :
    Settled G tokens.length (Reader.datumQuoting (fuel + 1) token opener depth tokens) := by
  rw [Reader.datumQuoting]
  refine settled_nextQuoted hopener htokens fun first rest hfirst hrest hlength => ?_
  have hquoted {m : Except Fault (Form × Tokens)} (h : Settled G rest.length m) :
      Settled G tokens.length
        (m >>= fun read => pure (Form.compoundAt token.tag [read.1] token, read.2)) :=
    h.bind fun quoted last hlast hothers => .ok (show last.length ≤ _ by omega) hothers
  refine .ite (fun _ => hquoted (ih.expression hfirst hrest (by omega))) fun _ => ?_
  refine .ite (fun _ => hquoted (ih.datum hfirst hrest (by omega) _)) fun _ => ?_
  refine .ite (fun _ => hquoted (ih.datum hfirst hrest (by omega) _)) fun _ => ?_
  exact hquoted (ih.datum hfirst hrest (by omega) _)

theorem step_datumList {opener : Token} (hopener : opener.Blames G) (depth : Nat)
    (hfuel : 2 * tokens.length + 1 ≤ fuel + 1) :
    Settled G tokens.length (Reader.datumList (fuel + 1) opener depth tokens) := by
  rw [Reader.datumList]
  refine settled_next hopener htokens fun token rest htoken hrest hlength => ?_
  refine .ite (fun _ => .ok (by omega) hrest) fun _ => .ite (fun _ => ?_) fun _ =>
    .ite (fun _ => settled_failAt htoken rfl) fun _ => ?_
  · refine (ih.datumQuoting hopener hrest (by omega) _ _).bind fun quoted after hafter hclose => ?_
    exact settled_close hopener hclose fun last hlast _ => .ok (by omega) hlast
  · refine (ih.datum htoken hrest (by omega) _).bind fun first after hafter hconfined => ?_
    refine (ih.datumItems hopener hconfined (by omega) _).bind fun others last hlast hothers => ?_
    exact .ok (by omega) hothers

theorem step_datumItems {opener : Token} (hopener : opener.Blames G) (depth : Nat)
    (hfuel : 2 * tokens.length + 1 ≤ fuel + 1) :
    Settled G tokens.length (Reader.datumItems (fuel + 1) opener depth tokens) := by
  rw [Reader.datumItems]
  refine settled_next hopener htokens fun token rest htoken hrest hlength => ?_
  refine .ite (fun _ => .ok (by omega) hrest) fun _ => .ite (fun _ => ?_) fun _ => ?_
  · refine (ih.dottedTail hopener hrest (by omega) _ _).bind fun tail last hlast hothers => ?_
    exact .ok (by omega) hothers
  · refine (ih.datum htoken hrest (by omega) _).bind fun first after hafter hconfined => ?_
    refine (ih.datumItems hopener hconfined (by omega) _).bind fun others last hlast hothers => ?_
    exact .ok (by omega) hothers

end Settles

variable {G : Fault → Prop}

/-- Enough steps are enough for every part of the reader. -/
theorem settles (fuel : Nat) : Settles G fuel := by
  induction fuel with
  | zero => constructor <;> intros <;> omega
  | succ fuel ih =>
    exact {
      expression := fun htoken htokens => ih.step_expression htokens htoken
      operands := fun hopener htokens hfuel dots => ih.step_operands htokens hopener dots hfuel
      dottedTail := fun hopener htokens hfuel dot depth =>
        ih.step_dottedTail htokens hopener dot depth hfuel
      form := fun hopener htokens => ih.step_form htokens hopener
      lambdaForm := fun hhead hopener htokens => ih.step_lambdaForm htokens hhead hopener
      defineForm := fun hhead hopener htokens => ih.step_defineForm htokens hhead hopener
      condClauses := fun hopener htokens => ih.step_condClauses htokens hopener
      letBindings := fun hopener htokens hfuel label =>
        ih.step_letBindings htokens hopener label hfuel
      letForm := fun hhead hopener htokens => ih.step_letForm htokens hhead hopener
      quoting := fun htoken htokens => ih.step_quoting htokens htoken
      datum := fun htoken htokens hfuel depth => ih.step_datum htokens htoken depth hfuel
      datumQuoting := fun hopener htokens hfuel token depth =>
        ih.step_datumQuoting htokens hopener token depth hfuel
      datumList := fun hopener htokens hfuel depth =>
        ih.step_datumList htokens hopener depth hfuel
      datumItems := fun hopener htokens hfuel depth =>
        ih.step_datumItems htokens hopener depth hfuel }

theorem fault_of_readLoop {fuel : Nat} {tokens : Tokens} (htokens : tokens.Confined G)
    (hfuel : tokens.length < fuel) {reversed forms : List Form} {fault : Fault}
    (h : readLoop fuel tokens reversed = (forms, some fault)) : G fault := by
  induction fuel generalizing tokens reversed with
  | zero => omega
  | succ fuel ih =>
    rw [readLoop] at h
    cases htokens with
    | done eof => cases h
    | broken hfault =>
      cases h
      exact hfault
    | @more token rest htoken hrest =>
      have hone := (settles (G := G) (fuelFor (.more token rest))).expression htoken hrest
        (by rw [fuelFor, Tokens.length]; omega)
      rw [read] at h
      generalize expression _ token rest = m at hone h
      cases hone with
      | error hfault =>
        cases h
        exact hfault
      | ok hlength hconfined =>
        rw [Tokens.length] at hfuel
        exact ih hconfined (by omega) h

/-- Whatever goes wrong with tokens is one of their own faults. -/
theorem fault_of_readTokens {tokens : Tokens} (htokens : tokens.Confined G) {fault : Fault}
    (h : allOrNone (readTokens tokens) = .error fault) : G fault := by
  have hfault : (readTokens tokens).2 = some fault := allOrNone_eq_error_iff.mp h
  exact fault_of_readLoop htokens (Nat.lt_succ_self _) (Prod.ext rfl hfault)

end Reader

end TowerLisp
