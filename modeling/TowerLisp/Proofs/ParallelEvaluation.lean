import TowerLisp.Proofs.ParallelRuns

/-!
Evaluation runs in parallel. If an evaluator keeps to a discipline and ends alike on forms
and worlds that are alike, then so does the level of evaluation on top of it. The calls of
`import` are taken over by a procedure that may be anything; with the one of the language
in its place, the evaluator is the one of the language.
-/

namespace TowerLisp

open EvalM (lift)
open Parallel

namespace Evaluator

/-- What is done in place of a call of `import`. -/
abbrev Import := Evaluator → ScopeId → Value → EvalM Value

/-- Applies a value to arguments; a call of `import` is left to `sub`. -/
def applyWith (sub : Import) (ev : Evaluator) (procedure : Value) (arguments : List Value)
    (scope : ScopeId) (tail : Bool) : EvalM Step :=
  match procedure, arguments with
  | .primitive .importSource, [v] => do return .done (← sub ev scope v)
  | _, _ => ev.applyValue procedure arguments scope tail

/-- One level of evaluation in which calls of `import` are left to `sub`. -/
def evalFormWith (sub : Import) (ev : Evaluator) (form : Form) (scope : ScopeId) (tail : Bool) :
    EvalM Step :=
  if !form.compound then ev.evalForm form scope tail
  else
    match form.tag, form.parts with
    | .symbol, parts | .operator, parts => do
      let procedure ← EvalM.lookup scope (← lift form.token.payload.written)
      let arguments ← ev.values scope parts
      ev.applyWith sub procedure arguments scope tail
    | .apply, head :: operands => do
      let procedure ← ev.value head scope
      let arguments ← ev.values scope operands
      ev.applyWith sub procedure arguments scope tail
    | _, _ => ev.evalForm form scope tail

def nextWith (sub : Import) (ev : Evaluator) : Evaluator where
  steps := ev.steps
  eval := ev.evalFormWith sub
  apply := ev.applyWith sub

end Evaluator

/-- The evaluator in which calls of `import` are left to `sub`. -/
def evaluatorWith (sub : Evaluator.Import) (steps : Nat) : (depth : Nat) → Evaluator
  | 0 => .refuse steps
  | depth + 1 => (evaluatorWith sub steps depth).nextWith sub

namespace Evaluator

theorem applyWith_import (ev : Evaluator) :
    ev.applyWith Builtin.importSource = ev.applyValue := by
  funext procedure arguments scope tail
  unfold applyWith
  split
  · rfl
  · rfl

theorem evalFormWith_import (ev : Evaluator) :
    ev.evalFormWith Builtin.importSource = ev.evalForm := by
  funext form scope tail
  obtain ⟨⟨tag, payload, place⟩, parts, compound⟩ := form
  cases compound
  · rfl
  · rw [evalFormWith, applyWith_import]
    cases tag <;> first | rfl | (cases parts <;> rfl)

end Evaluator

/-- With the `import` of the language this is the evaluator of the language. -/
theorem evaluatorWith_import (steps depth : Nat) :
    evaluatorWith Builtin.importSource steps depth = evaluator steps depth := by
  induction depth with
  | zero => rfl
  | succ depth ih =>
    rw [evaluatorWith, evaluator_succ, ih, Evaluator.nextWith, Evaluator.evalFormWith_import,
      Evaluator.applyWith_import]
    rfl

section Parts

variable {f g : Form}

theorem Form.Alike.tag_eq (h : f.Alike g) : g.tag = f.tag := by
  obtain ⟨place, htoken, -⟩ := h.cases
  rw [tag, tag, htoken]

theorem Form.Alike.parts (h : f.Alike g) : List.Forall₂ Form.Alike f.parts g.parts := by
  obtain ⟨-, -, -, hparts⟩ := h.cases
  exact hparts

theorem Closure.parts_of_erase_eq {c d : Closure} (h : c.erase = d.erase) :
    c.formals = d.formals ∧ c.scope = d.scope ∧ c.name = d.name ∧
      List.Forall₂ Form.Alike c.body d.body := by
  obtain ⟨formals, body, scope, name⟩ := c
  obtain ⟨formals', body', scope', name'⟩ := d
  simp only [erase, mk.injEq] at h
  exact ⟨h.1, h.2.2.1, h.2.2.2, Form.forall₂_alike h.2.1⟩

/-- The last elements of two lists that are related element by element. -/
theorem forall₂_getLast? {α : Type} {R : α → α → Prop} {as bs : List α} (h : List.Forall₂ R as bs) :
    (as.getLast? = none ∧ bs.getLast? = none) ∨
      ∃ a b, as.getLast? = some a ∧ bs.getLast? = some b ∧ R a b ∧
        List.Forall₂ R as.dropLast bs.dropLast := by
  induction h with
  | nil => exact Or.inl ⟨rfl, rfl⟩
  | cons hab hrest ih =>
    cases hrest with
    | nil => exact Or.inr ⟨_, _, rfl, rfl, hab, .nil⟩
    | cons hab' hrest' =>
      obtain ⟨hnone, -⟩ | ⟨a, b, ha, hb, hlast, hdrop⟩ := ih
      · simp at hnone
      · refine Or.inr ⟨a, b, ?_, ?_, hlast, ?_⟩
        · rw [List.getLast?_cons_cons, ha]
        · rw [List.getLast?_cons_cons, hb]
        · exact .cons hab hdrop

theorem mapM_corresponds {α β : Type} {F : Fault → Fault → Prop} {P : α → α → Prop}
    {R : β → β → Prop} {f : α → Except Fault β} {as bs : List α} (h : List.Forall₂ P as bs)
    (hf : ∀ {a b}, P a b → Corresponds F R (f a) (f b)) :
    Corresponds F (List.Forall₂ R) (as.mapM f) (bs.mapM f) := by
  induction h with
  | nil => exact .ok .nil
  | cons hab hrest ih =>
    rw [List.mapM_cons, List.mapM_cons]
    exact (hf hab).bind fun hfirst => ih.bind fun hothers => .ok (.cons hfirst hothers)

namespace Evaluator

theorem nameOf_alike (h : f.Alike g) : nameOf f = nameOf g := by
  obtain ⟨place, htoken, -⟩ := h.cases
  rw [nameOf, nameOf, htoken]

/-- Names are found wherever they stand. -/
theorem names_alike {forms forms' : List Form} (h : List.Forall₂ Form.Alike forms forms') :
    forms.mapM nameOf = forms'.mapM nameOf := by
  induction h with
  | nil => rfl
  | cons hfirst _ ih => rw [List.mapM_cons, List.mapM_cons, nameOf_alike hfirst, ih]

/-- A name with forms that are alike. -/
def SameBinding (p q : String × Form) : Prop :=
  p.1 = q.1 ∧ p.2.Alike q.2

theorem bindingOf_alike (h : f.Alike g) :
    Corresponds Fault.Alike SameBinding (bindingOf f) (bindingOf g) := by
  have hparts := h.parts
  unfold bindingOf
  generalize f.parts = parts at hparts ⊢
  generalize g.parts = parts' at hparts ⊢
  cases hparts with
  | nil => exact .error rfl
  | cons hname hrest =>
    cases hrest with
    | nil => exact .error rfl
    | cons hvalue hrest =>
      cases hrest with
      | cons => exact .error rfl
      | nil =>
        dsimp only
        rw [nameOf_alike hname]
        cases nameOf _ with
        | error fault => exact .error rfl
        | ok name => exact .ok ⟨rfl, hvalue⟩

theorem bindingsOf_alike (h : f.Alike g) :
    Corresponds Fault.Alike (List.Forall₂ SameBinding) (bindingsOf f) (bindingsOf g) := by
  unfold bindingsOf
  rw [h.tag_eq]
  split
  · exact mapM_corresponds h.parts bindingOf_alike
  · exact .error (Fault.alike_malformed _ _ _)

theorem names_of_sameBinding {pairs pairs' : List (String × Form)}
    (h : List.Forall₂ SameBinding pairs pairs') : pairs.map (·.1) = pairs'.map (·.1) := by
  induction h with
  | nil => rfl
  | cons hpair _ ih => rw [List.map_cons, List.map_cons, hpair.1, ih]

end Evaluator

end Parts

namespace Evaluator

variable {D : Discipline} {w v : World} {scope : ScopeId} {ev : Evaluator}

theorem parallel_bindingsOf {f g : Form} (hw : w.Alike v) (halike : f.Alike g) :
    Parallel D (fun _ => List.Forall₂ SameBinding) w v (lift (bindingsOf f))
      (lift (bindingsOf g)) :=
  parallel_corresponds hw (bindingsOf_alike halike)

theorem parallel_quoteForm {parts parts' : List Form}
    (hparts : List.Forall₂ Form.Alike parts parts') (hw : w.Alike v) :
    Parallel D (SameStep D) w v (quoteForm parts) (quoteForm parts') := by
  cases hparts with
  | nil => exact parallel_malformed hw _ _ _
  | cons hquoted hrest =>
    cases hrest with
    | cons => exact parallel_malformed hw _ _ _
    | nil =>
      unfold quoteForm
      dsimp only
      rw [hquoted.datum_eq]
      exact (Parallel.lift _ hw).done

theorem parallel_lambdaForm {parts parts' : List Form}
    (hparts : List.Forall₂ Form.Alike parts parts') (hs : D.Starts w v scope) :
    Parallel D (SameStep D) w v (lambdaForm parts scope)
      (lambdaForm parts' scope) := by
  cases hparts with
  | nil => exact parallel_malformed hs.alike _ _ _
  | cons hparams hbody =>
    cases hbody with
    | nil => exact parallel_malformed hs.alike _ _ _
    | cons hfirst hrest =>
      unfold lambdaForm
      dsimp only
      rw [hparams.tag_eq, names_alike hparams.parts]
      split
      · refine (Parallel.lift _ hs.alike).andThen fun formals _ _ hreach => ?_
        refine (parallel_newClosure hreach.alike ?_).andThen fun id _ _ hreach' =>
          .pure hreach'.alike (.done _)
        rw [Closure.erase, Closure.erase,
          Form.map_eq_of_forall₂_alike (.cons hfirst hrest)]
      · exact parallel_malformed hs.alike _ _ _

theorem parallel_evalLeaf (tag : Tag) (payload : Payload) (p q : Option Place) (hw : w.Alike v) :
    Parallel D Same w v (evalLeaf ⟨tag, payload, p⟩ scope) (evalLeaf ⟨tag, payload, q⟩ scope) := by
  cases tag
  case number | string | character => exact .lift _ hw
  case symbol | operator =>
    exact (Parallel.lift payload.written hw).andThen fun name _ _ hreach =>
      .aside (EvalM.aside_lookup scope name) hreach.alike
  case boolean | eof | empty => exact .pure hw rfl
  all_goals
    exact (Parallel.lift (Token.shown ⟨_, payload, p⟩) hw).andThen fun text _ _ hreach =>
      parallel_malformed hreach.alike _ _ _

/-- An evaluator that keeps to a discipline, and ends alike on what is alike. -/
structure Steady (D : Discipline) (ev : Evaluator) : Prop where
  eval : ∀ {form form' : Form} {scope : ScopeId} {w v : World} (tail : Bool),
    form.Alike form' → D.Starts w v scope →
    Parallel D (SameStep D) w v (ev.eval form scope tail) (ev.eval form' scope tail)
  apply : ∀ (procedure : Value) (arguments : List Value) {scope : ScopeId} {w v : World}
    (tail : Bool), D.Starts w v scope →
    Parallel D (SameStep D) w v (ev.apply procedure arguments scope tail)
      (ev.apply procedure arguments scope tail)

namespace Steady

variable (h : Steady D ev)

include h

theorem chase (n : Nat) {step step' : Step} (hw : w.Alike v)
    (hstep : SameStep D w.store step step') :
    Parallel D Same w v (ev.chase n step) (ev.chase n step') := by
  induction n generalizing w v step step' with
  | zero =>
    cases hstep with
    | done value => exact .pure hw rfl
    | call hform hadmits => exact parallel_throw hw _
  | succ n ih =>
    cases hstep with
    | done value => exact .pure hw rfl
    | call hform hadmits =>
      exact (h.eval true hform ⟨hw, hadmits⟩).bind fun hreach hnext => ih hreach.alike hnext

theorem finish {step step' : Step} (hw : w.Alike v) (hstep : SameStep D w.store step step') :
    Parallel D Same w v (ev.finish step) (ev.finish step') :=
  h.chase ev.steps hw hstep

theorem value {form form' : Form} (hform : form.Alike form') (hs : D.Starts w v scope) :
    Parallel D Same w v (ev.value form scope) (ev.value form' scope) :=
  (h.eval false hform hs).bind fun hreach hstep => h.finish hreach.alike hstep

theorem run {form form' : Form} (hform : form.Alike form') (hs : D.Starts w v scope) :
    Parallel D Same w v (ev.run form scope) (ev.run form' scope) :=
  (h.eval true hform hs).bind fun hreach hstep => h.finish hreach.alike hstep

section Sequences

variable {forms forms' : List Form} (hforms : List.Forall₂ Form.Alike forms forms')

include hforms

theorem values (hs : D.Starts w v scope) :
    Parallel D Same w v (ev.values scope forms) (ev.values scope forms') := by
  induction hforms generalizing w v with
  | nil => exact .pure hs.alike rfl
  | cons hfirst _ ih =>
    exact (h.value hfirst hs).andThen fun value _ _ hreach =>
      (ih (hs.after hreach)).andThen fun others _ _ hreach' => .pure hreach'.alike rfl

theorem evaluateEach (hs : D.Starts w v scope) :
    Parallel D Same w v (ev.evaluateEach scope forms) (ev.evaluateEach scope forms') := by
  induction hforms generalizing w v with
  | nil => exact .pure hs.alike rfl
  | cons hfirst _ ih =>
    exact (h.value hfirst hs).andThen fun _ _ _ hreach => ih (hs.after hreach)

theorem runAll (hs : D.Starts w v scope) (last : Value) :
    Parallel D Same w v (ev.runAll scope last forms) (ev.runAll scope last forms') := by
  induction hforms generalizing w v last with
  | nil => exact .pure hs.alike rfl
  | cons hfirst _ ih =>
    exact (h.run hfirst hs).andThen fun value _ _ hreach => ih (hs.after hreach) value

theorem body (hs : D.Starts w v scope) (tail : Bool) :
    Parallel D (SameStep D) w v (ev.body scope tail forms) (ev.body scope tail forms') := by
  induction hforms generalizing w v with
  | nil => exact .pure hs.alike (.done .nil)
  | cons hfirst hrest ih =>
    cases hrest with
    | nil => exact h.eval tail hfirst hs
    | cons =>
      exact (h.value hfirst hs).andThen fun _ _ _ hreach => ih (hs.after hreach)

theorem clauses (hs : D.Starts w v scope) (tail : Bool) :
    Parallel D (SameStep D) w v (ev.clauses scope tail forms) (ev.clauses scope tail forms') := by
  induction hforms generalizing w v with
  | nil => exact parallel_throw hs.alike _
  | @cons clause clause' rest rest' hclause _ ih =>
    have hparts := hclause.parts
    unfold Evaluator.clauses
    generalize clause.parts = parts at hparts ⊢
    generalize clause'.parts = parts' at hparts ⊢
    cases hparts with
    | nil => exact parallel_throw hs.alike _
    | cons htest hbody =>
      refine (h.value htest hs).andThen fun value _ _ hreach => ?_
      split
      · cases hbody with
        | nil => exact .pure hreach.alike (.done value)
        | cons hfirst hrest => exact h.body (.cons hfirst hrest) (hs.after hreach) tail
      · exact ih (hs.after hreach)

theorem condForm (hs : D.Starts w v scope) (tail : Bool) :
    Parallel D (SameStep D) w v (ev.condForm forms scope tail)
      (ev.condForm forms' scope tail) := by
  cases hforms with
  | nil => exact parallel_throw hs.alike _
  | cons hfirst hrest => exact h.clauses (.cons hfirst hrest) hs tail

theorem evalList (hs : D.Starts w v scope) :
    Parallel D Same w v (ev.evalList forms scope) (ev.evalList forms' scope) := by
  unfold Evaluator.evalList
  obtain ⟨hlast, hlast'⟩ | ⟨last, last', hlast, hlast', halike, hdrop⟩ := forall₂_getLast? hforms
  · rw [hlast, hlast']
    exact .pure hs.alike rfl
  · have hparts := halike.parts
    rw [hlast, hlast']
    dsimp only
    rw [halike.tag_eq]
    split
    · generalize last.parts = parts at hparts ⊢
      generalize last'.parts = parts' at hparts ⊢
      cases hparts with
      | nil => exact parallel_throw hs.alike _
      | cons hform _ =>
        exact (h.value hform hs).andThen fun tail _ _ hreach =>
          (h.values hdrop (hs.after hreach)).andThen fun items _ _ hreach' =>
            .pure hreach'.alike rfl
    · exact (h.values hforms hs).andThen fun items _ _ hreach => .pure hreach.alike rfl

end Sequences

section Bindings

variable {pairs pairs' : List (String × Form)} (hpairs : List.Forall₂ SameBinding pairs pairs')

include hpairs

theorem bindingValues (hs : D.Starts w v scope) :
    Parallel D Same w v (ev.bindingValues scope pairs) (ev.bindingValues scope pairs') := by
  induction hpairs generalizing w v with
  | nil => exact .pure hs.alike rfl
  | @cons p q _ _ hpair _ ih =>
    obtain ⟨name, form⟩ := p
    obtain ⟨name', form'⟩ := q
    obtain ⟨rfl, hform⟩ := hpair
    exact (h.value hform hs).andThen fun value _ _ hreach =>
      (ih (hs.after hreach)).andThen fun others _ _ hreach' => .pure hreach'.alike rfl

theorem bindEach (hs : D.Starts w v scope) :
    Parallel D (SameScope D) w v (ev.bindEach scope pairs) (ev.bindEach scope pairs') := by
  induction hpairs generalizing w v scope with
  | nil => exact .pure hs.alike ⟨rfl, hs.admits⟩
  | @cons p q _ _ hpair _ ih =>
    obtain ⟨name, form⟩ := p
    obtain ⟨name', form'⟩ := q
    obtain ⟨rfl, hform⟩ := hpair
    refine (h.value hform hs).andThen fun value _ _ hreach => ?_
    refine (parallel_newFrame hreach.alike scope _).bind fun {inner inner' _ _} hreach' hinner => ?_
    obtain ⟨rfl, hadmits⟩ := hinner
    exact ih ⟨hreach'.alike, hadmits⟩

theorem bindRec (hs : D.Starts w v scope) {frame : FrameId} (hopen : D.Opens w.store frame) :
    Parallel D Same w v (ev.bindRec scope frame pairs) (ev.bindRec scope frame pairs') := by
  induction hpairs generalizing w v with
  | nil => exact .pure hs.alike rfl
  | @cons p q _ _ hpair _ ih =>
    obtain ⟨name, form⟩ := p
    obtain ⟨name', form'⟩ := q
    obtain ⟨rfl, hform⟩ := hpair
    refine (h.value hform hs).andThen fun value _ _ hreach => ?_
    refine (parallel_nameValue hreach.alike name value).andThen fun _ _ _ hreach' => ?_
    have hopen' := D.opens_of_leads (hreach.trans hreach').leads hopen
    refine (parallel_bindIn hreach'.alike hopen' name value).andThen fun _ _ _ hreach'' => ?_
    have hwhole := (hreach.trans hreach').trans hreach''
    exact ih (hs.after hwhole) (D.opens_of_leads hwhole.leads hopen)

end Bindings

mutual

theorem quasi (template template' : Form) (halike : template.Alike template') (depth : Nat)
    {w v : World} (hs : D.Starts w v scope) :
    Parallel D Same w v (ev.quasi scope depth template) (ev.quasi scope depth template') := by
  have hdatum : Parallel D Same w v (lift template.datum) (lift template'.datum) := by
    rw [halike.datum_eq]
    exact .lift _ hs.alike
  obtain ⟨place', htoken, hcompound, hparts⟩ := halike.cases
  obtain ⟨⟨tag, payload, place⟩, parts, compound⟩ := template
  obtain ⟨token', parts', compound'⟩ := template'
  cases htoken
  cases hcompound
  unfold Evaluator.quasi
  cases compound with
  | false => exact .lift _ hs.alike
  | true =>
    simp only [Bool.not_true, Bool.false_eq_true, if_false]
    cases parts with
    | nil =>
      cases hparts
      cases tag
      case quasiquote | unquote | quote => exact parallel_throw hs.alike _
      case splice =>
        dsimp only
        split
        · exact parallel_malformed hs.alike _ _ _
        · exact parallel_throw hs.alike _
      case list => exact .pure hs.alike rfl
      all_goals exact hdatum
    | cons first rest =>
      obtain ⟨first', rest', hfirst, hrest, rfl⟩ := List.forall₂_cons_left_iff.mp hparts
      have hinner (depth : Nat) := (quasi first first' hfirst depth hs).andThen (S := Same)
        fun quoted _ _ hreach => .pure (b := Form.tagged tag quoted) hreach.alike rfl
      cases tag
      case quasiquote => exact hinner _
      case quote => exact hinner _
      case unquote =>
        dsimp only
        split
        · exact h.value hfirst hs
        · exact hinner _
      case splice =>
        dsimp only
        split
        · exact parallel_malformed hs.alike _ _ _
        · exact hinner _
      case list =>
        exact (quasiItems (first :: rest) (first' :: rest') (.cons hfirst hrest) depth .nil
          hs).andThen fun items _ _ hreach => .pure hreach.alike rfl
      all_goals exact hdatum

theorem quasiItems (forms forms' : List Form) (halike : List.Forall₂ Form.Alike forms forms')
    (depth : Nat) (tail : Value) {w v : World} (hs : D.Starts w v scope) :
    Parallel D Same w v (ev.quasiItems scope depth tail forms)
      (ev.quasiItems scope depth tail forms') := by
  cases forms with
  | nil =>
    cases halike
    exact .pure hs.alike rfl
  | cons form rest =>
    obtain ⟨form', rest', hform, hrest, rfl⟩ := List.forall₂_cons_left_iff.mp halike
    obtain ⟨place', htoken, hcompound, hparts⟩ := hform.cases
    obtain ⟨⟨tag, payload, place⟩, parts, compound⟩ := form
    obtain ⟨token', parts', compound'⟩ := form'
    cases htoken
    cases hcompound
    unfold Evaluator.quasiItems
    split
    · cases parts with
      | nil =>
        cases hparts
        exact parallel_throw hs.alike _
      | cons first others =>
        obtain ⟨first', others', hfirst, -, rfl⟩ := List.forall₂_cons_left_iff.mp hparts
        exact (quasi first first' hfirst depth hs).andThen fun tail _ _ hreach =>
          quasiItems rest rest' hrest depth tail (hs.after hreach)
    split
    · cases hparts with
      | nil => exact parallel_throw hs.alike _
      | cons hfirst _ =>
        refine (h.value hfirst hs).andThen fun value _ _ hreach => ?_
        refine (Parallel.aside (aside_spliced value) hreach.alike).andThen
          fun items _ _ hreach' => ?_
        have hs' := (hs.after hreach).after hreach'
        exact (quasiItems rest rest' hrest depth tail hs').andThen fun others _ _ hreach'' =>
          .pure hreach''.alike rfl
    · refine (quasi ⟨⟨tag, payload, place⟩, parts, compound⟩ _ hform depth hs).andThen
        fun item _ _ hreach => ?_
      exact (quasiItems rest rest' hrest depth tail (hs.after hreach)).andThen
        fun others _ _ hreach' => .pure hreach'.alike rfl

end

theorem applyClosure {c d : Closure} (hcd : c.erase = d.erase) (arguments : List Value)
    (hw : w.Alike v) (tail : Bool) :
    Parallel D (SameStep D) w v (ev.applyClosure c arguments tail)
      (ev.applyClosure d arguments tail) := by
  obtain ⟨hformals, hscope, hname, hbody⟩ := Closure.parts_of_erase_eq hcd
  unfold Evaluator.applyClosure
  rw [hformals, hscope, hname]
  dsimp only
  split
  · exact parallel_throw hw _
  refine (parallel_newFrame hw _ _).bind fun {inner inner' w' v'} hreach hinner => ?_
  obtain ⟨rfl, hadmits⟩ := hinner
  have hs : D.Starts w' v' inner := ⟨hreach.alike, hadmits⟩
  obtain ⟨hlast, hlast'⟩ | ⟨last, last', hlast, hlast', halike, hdrop⟩ := forall₂_getLast? hbody
  · rw [hlast, hlast']
    exact parallel_throw hs.alike _
  · rw [hlast, hlast']
    refine (h.evaluateEach hdrop hs).andThen fun _ _ _ hreach' => ?_
    have hs' := hs.after hreach'
    cases tail with
    | true => exact .pure hs'.alike (.call halike hs'.admits)
    | false => exact (h.run halike hs').done

theorem evalText (source : List Char) (hs : D.Starts w v scope) :
    Parallel D Same w v (Builtin.evalText ev source scope) (Builtin.evalText ev source scope) :=
  (Parallel.aside (Builtin.aside_readAll source) hs.alike).andThen fun _ _ _ hreach =>
    h.runAll (List.forall₂_same.mpr fun form _ => .refl form) (hs.after hreach) .nil

theorem builtinEval (value : Value) (hs : D.Starts w v scope) :
    Parallel D Same w v (Builtin.eval ev scope value) (Builtin.eval ev scope value) := by
  refine (parallel_fork hs).bind fun {inner inner' _ _} hreach hinner => ?_
  obtain ⟨rfl, hadmits⟩ := hinner
  have hs' : D.Starts _ _ inner := ⟨hreach.alike, hadmits⟩
  exact (Parallel.aside (EvalM.aside_display value) hs'.alike).andThen fun text _ _ hreach' =>
    h.evalText _ (hs'.after hreach')

theorem builtinRead (hs : D.Starts w v scope) :
    Parallel D Same w v (Builtin.read ev scope) (Builtin.read ev scope) := by
  refine (parallel_fork hs).bind fun {inner inner' _ _} hreach hinner => ?_
  obtain ⟨rfl, hadmits⟩ := hinner
  have hs' : D.Starts _ _ inner := ⟨hreach.alike, hadmits⟩
  exact (Parallel.aside Builtin.aside_takeInputLine hs'.alike).andThen fun line _ _ hreach' =>
    h.evalText _ (hs'.after hreach')

theorem builtinApply (procedure arguments : Value) (hs : D.Starts w v scope) :
    Parallel D Same w v (Builtin.apply ev scope procedure arguments)
      (Builtin.apply ev scope procedure arguments) := by
  unfold Builtin.apply
  cases arguments.list? with
  | none => exact parallel_throw hs.alike _
  | some items =>
    exact (h.apply procedure items false hs).bind fun hreach hstep => h.finish hreach.alike hstep

/-- The procedures with effects, apart from calls of `import`. -/
theorem perform (p : Primitive) (args : List Value) (hs : D.Starts w v scope)
    (hp : ∀ value, ¬ (p = .importSource ∧ args = [value])) :
    Parallel D Same w v (Builtin.perform ev scope p args) (Builtin.perform ev scope p args) := by
  unfold Builtin.perform
  split
  case h_1 => exact h.builtinApply _ _ hs
  case h_2 => exact h.builtinEval _ hs
  case h_3 => exact h.builtinRead hs
  case h_4 => exact absurd ⟨rfl, rfl⟩ (hp _)
  case h_5 => exact .aside (Builtin.aside_print _) hs.alike
  case h_6 => exact .aside (Builtin.aside_printf _) hs.alike
  case h_7 => exact .aside (Builtin.aside_readFromFile _) hs.alike
  case h_8 => exact .aside (Builtin.aside_readLines _) hs.alike
  case h_9 => exact .aside (Builtin.aside_makeFile _) hs.alike
  case h_10 => exact .aside (Builtin.aside_makeDirectory _) hs.alike
  case h_11 => exact .aside (Builtin.aside_writeToFile _ _) hs.alike
  case h_12 => exact .aside (Builtin.aside_writeLines _ _) hs.alike
  case h_13 => exact parallel_throw hs.alike _

theorem builtin (p : Primitive) (args : List Value) (hs : D.Starts w v scope)
    (hp : ∀ value, ¬ (p = .importSource ∧ args = [value])) :
    Parallel D Same w v (Builtin.run ev scope p args) (Builtin.run ev scope p args) := by
  have hcompute : Builtin.compute? w.store p args = Builtin.compute? v.store p args := by
    rw [← Builtin.compute?_erase, ← Builtin.compute?_erase v.store, hs.alike.store]
  unfold Builtin.run
  cases p.arity?
  case' some n =>
    dsimp only
    split
    case isTrue => exact parallel_throw hs.alike _
  -- with the right number of arguments, the result is computed or an effect performed
  all_goals
    refine parallel_get ?_
    rw [hcompute]
    cases Builtin.compute? v.store p args with
    | none => exact h.perform p args hs hp
    | some result =>
      exact (Parallel.lift result hs.alike).andThen fun value _ _ hreach =>
        .aside (EvalM.aside_mark value) hreach.alike

theorem applyValue (procedure : Value) (arguments : List Value) (hs : D.Starts w v scope)
    (tail : Bool) (hp : ∀ value, ¬ (procedure = .primitive .importSource ∧ arguments = [value])) :
    Parallel D (SameStep D) w v (ev.applyValue procedure arguments scope tail)
      (ev.applyValue procedure arguments scope tail) := by
  unfold Evaluator.applyValue
  cases procedure with
  | closure id =>
    have hclosure : (w.store.closure? id).map Closure.erase =
        (v.store.closure? id).map Closure.erase := by
      rw [← Store.closure?_erase, ← Store.closure?_erase, hs.alike.store]
    refine parallel_get ?_
    generalize w.store.closure? id = c at hclosure ⊢
    generalize v.store.closure? id = d at hclosure ⊢
    cases c with
    | none =>
      cases d with
      | none => exact parallel_throw hs.alike _
      | some d => cases hclosure
    | some c =>
      cases d with
      | none => cases hclosure
      | some d => exact h.applyClosure (Option.some.inj hclosure) arguments hs.alike tail
  | primitive p =>
    exact (h.builtin p arguments hs fun value hcall =>
      hp value ⟨by rw [hcall.1], hcall.2⟩).done
  | _ =>
    exact (Parallel.aside (EvalM.aside_printed _) hs.alike).andThen fun text _ _ hreach =>
      parallel_throw hreach.alike _

theorem quasiquoteForm {parts parts' : List Form} (hparts : List.Forall₂ Form.Alike parts parts')
    (hs : D.Starts w v scope) :
    Parallel D (SameStep D) w v (ev.quasiquoteForm parts scope)
      (ev.quasiquoteForm parts' scope) := by
  cases hparts with
  | nil => exact parallel_malformed hs.alike _ _ _
  | cons htemplate hrest =>
    cases hrest with
    | cons => exact parallel_malformed hs.alike _ _ _
    | nil => exact (h.quasi _ _ htemplate 1 hs).done

theorem defineForm {parts parts' : List Form} (hparts : List.Forall₂ Form.Alike parts parts')
    (hs : D.Starts w v scope) :
    Parallel D (SameStep D) w v (ev.defineForm parts scope) (ev.defineForm parts' scope) := by
  cases hparts with
  | nil => exact parallel_malformed hs.alike _ _ _
  | cons htarget hrest =>
    cases hrest with
    | nil => exact parallel_malformed hs.alike _ _ _
    | cons hform hrest =>
      cases hrest with
      | cons => exact parallel_malformed hs.alike _ _ _
      | nil =>
        unfold Evaluator.defineForm
        dsimp only
        rw [htarget.tag_eq, nameOf_alike htarget]
        split
        · refine (Parallel.lift _ hs.alike).andThen fun name _ _ hreach => ?_
          refine (h.value hform (hs.after hreach)).andThen fun value _ _ hreach' => ?_
          have hs' := (hs.after hreach).after hreach'
          refine (parallel_nameValue hs'.alike name value).andThen fun _ _ _ hreach'' => ?_
          exact (parallel_define (hs'.after hreach'') name value).andThen fun _ _ _ hlast =>
            .pure hlast.alike (.done _)
        · exact parallel_malformed hs.alike _ _ _

theorem namedLet {name name' : Form} (hname : name.Alike name') {rest rest' : List Form}
    (hrest : List.Forall₂ Form.Alike rest rest') (hs : D.Starts w v scope) (tail : Bool) :
    Parallel D (SameStep D) w v (ev.namedLet name rest scope tail)
      (ev.namedLet name' rest' scope tail) := by
  unfold Evaluator.namedLet
  rw [nameOf_alike hname]
  refine (Parallel.lift _ hs.alike).andThen fun label _ _ hreach => ?_
  have hs := hs.after hreach
  cases hrest with
  | nil => exact parallel_throw hs.alike _
  | @cons list list' body body' hlist hbody =>
    refine (parallel_bindingsOf hs.alike hlist).bind fun {pairs pairs' _ _} hreach hpairs => ?_
    have hs := hs.after hreach
    refine (h.bindingValues hpairs hs).andThen fun arguments _ _ hreach => ?_
    refine (parallel_openFrame hreach.alike scope).bind
      fun {opened opened' _ _} hreach hopened => ?_
    obtain ⟨rfl, -, hopen⟩ := hopened
    have hclosure : Closure.erase ⟨pairs.map (·.1), body, opened.1, some label⟩ =
        Closure.erase ⟨pairs'.map (·.1), body', opened.1, some label⟩ := by
      rw [Closure.erase, Closure.erase, Form.map_eq_of_forall₂_alike hbody,
        names_of_sameBinding hpairs]
    refine (parallel_newClosure hreach.alike hclosure).andThen fun id _ _ hreach => ?_
    have hopen := D.opens_of_leads hreach.leads hopen
    exact (parallel_bindIn hreach.alike hopen label _).andThen fun _ _ _ hreach =>
      h.applyClosure hclosure _ hreach.alike tail

theorem letAllForm {parts parts' : List Form} (hparts : List.Forall₂ Form.Alike parts parts')
    (hs : D.Starts w v scope) (tail : Bool) :
    Parallel D (SameStep D) w v (ev.letAllForm parts scope tail)
      (ev.letAllForm parts' scope tail) := by
  cases hparts with
  | nil => exact parallel_throw hs.alike _
  | cons hfirst hrest =>
    unfold Evaluator.letAllForm
    dsimp only
    rw [hfirst.tag_eq]
    split
    · exact h.namedLet hfirst hrest hs tail
    · refine (parallel_bindingsOf hs.alike hfirst).bind fun {pairs pairs' _ _} hreach hpairs => ?_
      refine (h.bindingValues hpairs (hs.after hreach)).andThen fun bindings _ _ hreach => ?_
      refine (parallel_newFrame hreach.alike scope _).bind
        fun {inner inner' _ _} hreach hinner => ?_
      obtain ⟨rfl, hadmits⟩ := hinner
      exact h.body hrest ⟨hreach.alike, hadmits⟩ tail

theorem letEachForm {parts parts' : List Form} (hparts : List.Forall₂ Form.Alike parts parts')
    (hs : D.Starts w v scope) (tail : Bool) :
    Parallel D (SameStep D) w v (ev.letEachForm parts scope tail)
      (ev.letEachForm parts' scope tail) := by
  cases hparts with
  | nil => exact parallel_throw hs.alike _
  | cons hfirst hrest =>
    refine (parallel_bindingsOf hs.alike hfirst).bind fun {pairs pairs' _ _} hreach hpairs => ?_
    refine (h.bindEach hpairs (hs.after hreach)).bind fun {inner inner' _ _} hreach hinner => ?_
    obtain ⟨rfl, hadmits⟩ := hinner
    exact h.body hrest ⟨hreach.alike, hadmits⟩ tail

theorem letRecForm {parts parts' : List Form} (hparts : List.Forall₂ Form.Alike parts parts')
    (hs : D.Starts w v scope) (tail : Bool) :
    Parallel D (SameStep D) w v (ev.letRecForm parts scope tail)
      (ev.letRecForm parts' scope tail) := by
  refine (parallel_openFrame hs.alike scope).bind fun {opened opened' _ _} hreach hopened => ?_
  obtain ⟨rfl, hadmits, hopen⟩ := hopened
  have hs : D.Starts _ _ opened.1 := ⟨hreach.alike, hadmits⟩
  cases hparts with
  | nil => exact parallel_throw hs.alike _
  | cons hfirst hrest =>
    refine (parallel_bindingsOf hs.alike hfirst).bind fun {pairs pairs' _ _} hreach hpairs => ?_
    have hopen := D.opens_of_leads hreach.leads hopen
    exact (h.bindRec hpairs (hs.after hreach) hopen).andThen fun _ _ _ hreach' =>
      h.body hrest ((hs.after hreach).after hreach') tail

/-- Applications, if the calls of `import` go alike. -/
theorem applyWith {sub : Import}
    (hsub : ∀ {scope : ScopeId} {w v : World} (value : Value), D.Starts w v scope →
      Parallel D Same w v (sub ev scope value) (sub ev scope value))
    (procedure : Value) (arguments : List Value) (hs : D.Starts w v scope) (tail : Bool) :
    Parallel D (SameStep D) w v (ev.applyWith sub procedure arguments scope tail)
      (ev.applyWith sub procedure arguments scope tail) := by
  unfold Evaluator.applyWith
  split
  · exact (hsub _ hs).done
  · rename_i hcall
    exact h.applyValue procedure arguments hs tail fun value hvalue =>
      hcall value hvalue.1 hvalue.2

theorem evalFormWith {sub : Import}
    (hsub : ∀ {scope : ScopeId} {w v : World} (value : Value), D.Starts w v scope →
      Parallel D Same w v (sub ev scope value) (sub ev scope value))
    {form form' : Form} (halike : form.Alike form') (hs : D.Starts w v scope) (tail : Bool) :
    Parallel D (SameStep D) w v (ev.evalFormWith sub form scope tail)
      (ev.evalFormWith sub form' scope tail) := by
  have htext := halike.text_eq
  obtain ⟨place', htoken, hcompound, hparts⟩ := halike.cases
  obtain ⟨⟨tag, payload, place⟩, parts, compound⟩ := form
  obtain ⟨token', parts', compound'⟩ := form'
  cases htoken
  cases hcompound
  cases compound with
  | false => exact (parallel_evalLeaf tag payload place place' hs.alike).done
  | true =>
    cases tag
    case quote => exact parallel_quoteForm hparts hs.alike
    case quasiquote => exact h.quasiquoteForm hparts hs
    case unquote => exact parallel_malformed hs.alike _ _ _
    case splice => exact parallel_malformed hs.alike _ _ _
    case lambda => exact parallel_lambdaForm hparts hs
    case define => exact h.defineForm hparts hs
    case cond => exact h.condForm hparts hs tail
    case letAll => exact h.letAllForm hparts hs tail
    case letEach => exact h.letEachForm hparts hs tail
    case letRec => exact h.letRecForm hparts hs tail
    case sequence => exact h.body hparts hs tail
    case symbol | operator =>
      refine (Parallel.lift payload.written hs.alike).andThen fun name _ _ hreach => ?_
      have hs := hs.after hreach
      refine (Parallel.aside (EvalM.aside_lookup scope name) hs.alike).andThen
        fun procedure _ _ hreach => ?_
      have hs := hs.after hreach
      exact (h.values hparts hs).andThen fun arguments _ _ hreach =>
        h.applyWith hsub procedure arguments (hs.after hreach) tail
    case apply =>
      cases hparts with
      | nil => exact parallel_throw hs.alike _
      | cons hhead hoperands =>
        refine (h.value hhead hs).andThen fun procedure _ _ hreach => ?_
        have hs := hs.after hreach
        exact (h.values hoperands hs).andThen fun arguments _ _ hreach =>
          h.applyWith hsub procedure arguments (hs.after hreach) tail
    case list => exact (h.evalList hparts hs).done
    case empty => exact .pure hs.alike (.done .nil)
    all_goals
      change Parallel D (SameStep D) w v
        (do throw (.malformed (.cannotEvaluateForm (← lift (Form.text _))) place))
        (do throw (.malformed (.cannotEvaluateForm (← lift (Form.text _))) place'))
      rw [htext]
      exact (Parallel.lift _ hs.alike).andThen fun text _ _ hreach =>
        parallel_malformed hreach.alike _ _ _

/-- The level on top of an evaluator keeps to its discipline. -/
theorem nextWith {sub : Import}
    (hsub : ∀ {scope : ScopeId} {w v : World} (value : Value), D.Starts w v scope →
      Parallel D Same w v (sub ev scope value) (sub ev scope value)) :
    Steady D (ev.nextWith sub) where
  eval tail halike hs := h.evalFormWith hsub halike hs tail
  apply procedure arguments _ _ _ tail hs := h.applyWith hsub procedure arguments hs tail

end Steady

theorem steady_refuse (D : Discipline) (steps : Nat) : Steady D (refuse steps) where
  eval _ _ hs := parallel_throw hs.alike _
  apply _ _ _ _ _ _ hs := parallel_throw hs.alike _

end Evaluator

/-- If every level on top of which `import` is called lets it go alike, evaluation keeps to
the discipline. -/
theorem steady_evaluatorWith {D : Discipline} {sub : Evaluator.Import}
    (hsub : ∀ {ev : Evaluator} {scope : ScopeId} {w v : World} (value : Value), ev.Steady D →
      D.Starts w v scope → Parallel D Same w v (sub ev scope value) (sub ev scope value))
    (steps depth : Nat) : (evaluatorWith sub steps depth).Steady D := by
  induction depth with
  | zero => exact Evaluator.steady_refuse D steps
  | succ depth ih => exact ih.nextWith fun value hs => hsub value ih hs

section Import

variable {D : Discipline} {w v : World} {scope : ScopeId} {ev : Evaluator}
  (hroot : ∀ s frame, D.Leads s (s.addScope [frame]).2 ∧
    D.Admits (s.addScope [frame]).2 (s.addScope [frame]).1)

include hroot

theorem parallel_evaluateAtRoot (h : ev.Steady D) (root : FrameId) (forms : List Form)
    (hw : w.Alike v) :
    Parallel D Same w v (Builtin.evaluateAtRoot ev root forms)
      (Builtin.evaluateAtRoot ev root forms) := by
  induction forms generalizing w v with
  | nil => exact .pure hw rfl
  | cons form rest ih =>
    have hscope : Parallel D (SameScope D) w v (EvalM.updateStore (·.addScope [root]))
        (EvalM.updateStore (·.addScope [root])) :=
      .updateStore hw (hroot _ _).1 (fun _ => rfl) ⟨rfl, (hroot _ _).2⟩
    refine hscope.bind fun {inner inner' _ _} hreach hinner => ?_
    obtain ⟨rfl, hadmits⟩ := hinner
    exact (h.run (.refl form) ⟨hreach.alike, hadmits⟩).andThen fun _ _ _ hreach' =>
      ih hreach'.alike

theorem parallel_importSource (value : Value) (h : ev.Steady D) (hs : D.Starts w v scope) :
    Parallel D Same w v (Builtin.importSource ev scope value)
      (Builtin.importSource ev scope value) := by
  unfold Builtin.importSource
  refine (Parallel.aside (Builtin.aside_sourceName value) hs.alike).andThen
    fun name _ _ hreach => ?_
  refine (Parallel.aside (Builtin.aside_findSource name) hreach.alike).andThen
    fun path? _ _ hreach => ?_
  cases path? with
  | none => exact parallel_throw hreach.alike _
  | some path =>
    refine (Parallel.aside (Builtin.aside_sourceText path) hreach.alike).andThen
      fun source _ _ hreach => ?_
    refine (Parallel.aside (Builtin.aside_readAll source) hreach.alike).andThen
      fun forms w' v' hreach => ?_
    have hstores : v'.store.root? scope = w'.store.root? scope := by
      change v'.store.erase.root? scope = w'.store.erase.root? scope
      rw [hreach.alike.store]
    refine parallel_get ?_
    dsimp only
    rw [hstores]
    split
    · exact (parallel_evaluateAtRoot hroot h _ _ hreach.alike).andThen fun _ _ _ hreach' =>
        .pure hreach'.alike rfl
    · exact .pure hreach.alike rfl
    · exact parallel_throw hreach.alike _

/-- The same holds of the `import` of the language, if forms may be evaluated at a root. -/
theorem steady_evaluator (steps depth : Nat) : (evaluator steps depth).Steady D := by
  rw [← evaluatorWith_import]
  exact steady_evaluatorWith (parallel_importSource hroot) steps depth

end Import

end TowerLisp
