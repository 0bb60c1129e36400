import TowerLisp.Proofs.Standards
import TowerLisp.Proofs.TemplateSteps

/-!
Evaluation of shaped forms. What evaluation takes apart has the parts that it looks for, so none
of its own checks of a form fails, with the one exception of a spliced part that stands in no
list. The procedures that it makes have bodies, and names that are all different unless they
come from a named let; and it finds no values of procedures that are not there. One pass over the
evaluator shows all of this; what is read while the program runs is left out of it.
-/

namespace TowerLisp

open EvalM (lift)
open Value (Bounded AllBounded RowBounded)

/-- The calls that read a text and evaluate it. -/
def Builtin.readsText : Primitive → List Value → Bool
  | .eval, [_] | .read, [] | .importSource, [_] => true
  | _, _ => false

namespace Standard

variable {S : Standard} {n : Nat}

theorem sound_quasiItems_nil {ev : Evaluator} {scope : ScopeId} {depth : Nat} {tail : Value}
    (htail : S.IfCloses Bounded n tail) :
    S.Sound (S.IfCloses RowBounded) n (ev.quasiItems scope depth tail []) := by
  rw [ev.quasiItems_nil]
  exact sound_pure fun _ hle hcloses => ⟨List.forall_mem_nil _, (htail hcloses).mono hle⟩

/-- An evaluator that keeps to the standard. -/
structure Keeps (S : Standard) (ev : Evaluator) : Prop where
  eval : ∀ {n : Nat} {form : Form} (scope : ScopeId) (tail : Bool), S.Code form →
    S.Sound S.StepOf n (ev.eval form scope tail)
  apply : ∀ {n : Nat} (procedure : Value) {arguments : List Value} (scope : ScopeId)
    (tail : Bool), S.IfCloses AllBounded n arguments →
    S.Sound S.StepOf n (ev.apply procedure arguments scope tail)

namespace Keeps

variable {ev : Evaluator} (h : S.Keeps ev)

include h

theorem chase (steps : Nat) {step : Step} (hstep : S.StepOf n step) :
    S.Finds n (ev.chase steps step) := by
  induction steps generalizing step n with
  | zero =>
    cases step with
    | done value => exact finds_pure hstep
    | call form scope => exact sound_fault rfl
  | succ steps ih =>
    cases step with
    | done value => exact finds_pure hstep
    | call form scope => exact (h.eval scope true hstep).bind fun _ hnext => ih hnext

theorem value {form : Form} (hform : S.Code form) (scope : ScopeId) :
    S.Finds n (ev.value form scope) :=
  (h.eval scope false hform).bind fun _ hstep => h.chase _ hstep

theorem run {form : Form} (hform : S.Code form) (scope : ScopeId) :
    S.Finds n (ev.run form scope) :=
  (h.eval scope true hform).bind fun _ hstep => h.chase _ hstep

section Sequences

variable {forms : List Form} (hforms : ∀ form ∈ forms, S.Code form)

include hforms

theorem values (scope : ScopeId) :
    S.Sound (S.IfCloses AllBounded) n (ev.values scope forms) := by
  induction forms generalizing n with
  | nil => exact sound_pure fun _ _ _ => List.forall_mem_nil _
  | cons form rest ih =>
    obtain ⟨hfirst, hrest⟩ := List.forall_mem_cons.mp hforms
    exact (h.value hfirst scope).bind fun _ hvalue => (ih hrest).bind fun hle hothers =>
      sound_pure fun _ hle' hcloses =>
        .cons ((hvalue hcloses).mono (Nat.le_trans hle hle')) ((hothers hcloses).mono hle')

theorem evaluateEach (scope : ScopeId) : S.Safe n (ev.evaluateEach scope forms) := by
  induction forms generalizing n with
  | nil => exact safe_pure _
  | cons form rest ih =>
    obtain ⟨hfirst, hrest⟩ := List.forall_mem_cons.mp hforms
    exact (h.value hfirst scope).andThen fun _ _ => ih hrest

theorem runAll (scope : ScopeId) {last : Value} (hlast : S.IfCloses Bounded n last) :
    S.Finds n (ev.runAll scope last forms) := by
  induction forms generalizing n last with
  | nil => exact finds_pure hlast
  | cons form rest ih =>
    obtain ⟨hfirst, hrest⟩ := List.forall_mem_cons.mp hforms
    exact (h.run hfirst scope).bind fun _ hvalue => ih hrest hvalue

theorem evaluateAtRoot (root : FrameId) : S.Safe n (Builtin.evaluateAtRoot ev root forms) := by
  induction forms generalizing n with
  | nil => exact safe_pure _
  | cons form rest ih =>
    obtain ⟨hfirst, hrest⟩ := List.forall_mem_cons.mp hforms
    exact (safe_addScope [root]).andThen fun scope _ =>
      (h.run hfirst scope).andThen fun _ _ => ih hrest

theorem body (scope : ScopeId) (tail : Bool) :
    S.Sound S.StepOf n (ev.body scope tail forms) := by
  induction forms generalizing n with
  | nil => exact sound_pure fun _ _ _ => trivial
  | cons form rest ih =>
    obtain ⟨hfirst, hrest⟩ := List.forall_mem_cons.mp hforms
    cases rest with
    | nil => exact h.eval scope tail hfirst
    | cons => exact (h.value hfirst scope).andThen fun _ _ => ih hrest

end Sequences

theorem clauses {forms : List Form} (hne : ∀ clause ∈ forms, clause.parts ≠ [])
    (hforms : ∀ clause ∈ forms, ∀ form ∈ clause.parts, S.Code form) (scope : ScopeId)
    (tail : Bool) : S.Sound S.StepOf n (ev.clauses scope tail forms) := by
  induction forms generalizing n with
  | nil => exact sound_fault rfl
  | cons clause rest ih =>
    obtain ⟨hclause, hothers⟩ := List.forall_mem_cons.mp hforms
    obtain ⟨hfirst, hrest⟩ := List.forall_mem_cons.mp hne
    unfold Evaluator.clauses
    cases hparts : clause.parts with
    | nil => exact absurd hparts hfirst
    | cons test forms =>
      rw [hparts] at hclause
      obtain ⟨htest, hforms⟩ := List.forall_mem_cons.mp hclause
      refine (h.value htest scope).bind fun _ hvalue => sound_ite (fun _ => ?_) fun _ => ?_
      · exact sound_ite (fun _ => sound_done (finds_pure hvalue)) fun _ => h.body hforms scope tail
      · exact ih hrest hothers

section Bindings

variable {pairs : List (String × Form)} (hpairs : ∀ pair ∈ pairs, S.Code pair.2)

include hpairs

theorem bindingValues (scope : ScopeId) :
    S.Sound (S.IfCloses Bindings.Bounded) n (ev.bindingValues scope pairs) := by
  induction pairs generalizing n with
  | nil => exact sound_pure fun _ _ _ => List.forall_mem_nil _
  | cons pair rest ih =>
    obtain ⟨hfirst, hrest⟩ := List.forall_mem_cons.mp hpairs
    exact (h.value hfirst scope).bind fun _ hvalue => (ih hrest).bind fun hle hothers =>
      sound_pure fun _ hle' hcloses => List.forall_mem_cons.mpr
        ⟨(hvalue hcloses).mono (Nat.le_trans hle hle'), (hothers hcloses).mono hle'⟩

theorem bindEach (scope : ScopeId) : S.Safe n (ev.bindEach scope pairs) := by
  induction pairs generalizing n scope with
  | nil => exact safe_pure _
  | cons pair rest ih =>
    obtain ⟨hfirst, hrest⟩ := List.forall_mem_cons.mp hpairs
    refine (h.value hfirst scope).bind fun _ hvalue =>
      (safe_newFrame scope fun hcloses => ?_).andThen fun inner _ => ih hrest inner
    exact List.forall_mem_singleton.mpr (hvalue hcloses)

theorem bindRec (scope : ScopeId) (frame : FrameId) :
    S.Safe n (ev.bindRec scope frame pairs) := by
  induction pairs generalizing n with
  | nil => exact safe_pure _
  | cons pair rest ih =>
    obtain ⟨hfirst, hrest⟩ := List.forall_mem_cons.mp hpairs
    refine (h.value hfirst scope).bind fun _ hvalue => (safe_nameValue _ _).andThen fun _ hle => ?_
    exact (safe_bindIn frame pair.1 fun hcloses => (hvalue hcloses).mono hle).andThen fun _ _ =>
      ih hrest

end Bindings

theorem applyClosure {closure : Closure} (hclosure : closure.MadeOf S.Has)
    {arguments : List Value} (harguments : S.IfCloses AllBounded n arguments) (tail : Bool) :
    S.Sound S.StepOf n (ev.applyClosure closure arguments tail) := by
  unfold Evaluator.applyClosure
  dsimp only
  refine sound_ite (fun _ => sound_fault rfl) fun _ => ?_
  have hbindings (hcloses : S.Closes) :=
    (Bindings.Bounded.zip closure.formals (harguments hcloses)).ofPairs
  refine (safe_newFrame _ hbindings).andThen fun scope _ => ?_
  have hlast := List.getLast?_eq_some_getLast hclosure.body_ne_nil
  rw [hlast]
  have hcode := hclosure.body _ (List.getLast_mem hclosure.body_ne_nil)
  have hfront := fun form hform => hclosure.body form ((List.dropLast_sublist _).subset hform)
  refine (h.evaluateEach hfront scope).andThen fun _ _ => ?_
  exact sound_ite (fun _ => sound_pure fun _ _ => hcode) fun _ => sound_done (h.run hcode scope)

theorem evalList {parts : List Form} (hparts : ∀ part ∈ parts, S.Code part) (scope : ScopeId) :
    S.Finds n (ev.evalList parts scope) := by
  unfold Evaluator.evalList
  cases hlast : parts.getLast? with
  | none => exact finds_pure fun _ => trivial
  | some last =>
    have hdot := (hparts last (List.mem_of_getLast? hlast)).1.tag_ne_dot
    dsimp only
    rw [if_neg hdot]
    exact (h.values hparts scope).bind fun _ hitems =>
      finds_pure fun hcloses => .ofList (hitems hcloses) trivial

theorem evalList_dotted {items : List Form} {dot : Token} {tail : Form}
    (hitems : ∀ item ∈ items, S.Code item) (hdot : dot.tag = .dot) (htail : S.Code tail)
    (scope : ScopeId) : S.Finds n (ev.evalList (items ++ [⟨dot, [tail], true⟩]) scope) := by
  rw [Evaluator.evalList, List.getLast?_concat, List.dropLast_concat]
  refine sound_ite (fun _ => ?_) fun hne => absurd hdot hne
  exact (h.value htail scope).bind fun _ hvalue => (h.values hitems scope).bind fun hle hvalues =>
    finds_pure fun hcloses => .ofList (hvalues hcloses) ((hvalue hcloses).mono hle)

section Templates

variable {scope : ScopeId} {depth : Nat}

theorem quasiItems {items : List Form} (rest : List Form)
    (hitems : ∀ item ∈ items, item.Shaped (.data depth) ∧ S.Has item ∧
      ∀ n, S.Finds n (ev.quasi scope depth item))
    (hrest : ∀ {n tail}, S.IfCloses Bounded n tail →
      S.Sound (S.IfCloses RowBounded) n (ev.quasiItems scope depth tail rest)) {tail : Value}
    (htail : S.IfCloses Bounded n tail) :
    S.Sound (S.IfCloses RowBounded) n (ev.quasiItems scope depth tail (items ++ rest)) := by
  induction items generalizing n with
  | nil => exact hrest htail
  | cons item items ih =>
    obtain ⟨⟨hshaped, hhas, hitem⟩, hothers⟩ := List.forall_mem_cons.mp hitems
    rw [List.cons_append]
    by_cases hsplice : item.tag = .splice ∧ depth = 1
    · obtain ⟨hsplice, rfl⟩ := hsplice
      obtain ⟨token, first, rfl, hfirst⟩ := hshaped.spliced hsplice
      rw [ev.quasiItems_splice scope _ _ hsplice]
      have hcode : S.Code first := ⟨hfirst, S.part hhas (List.mem_singleton_self first)⟩
      refine (h.value hcode scope).bind fun hle hvalue => (sound_spliced hvalue).bind
        fun hle' hspliced => ?_
      exact (ih hothers fun hcloses => (htail hcloses).mono (Nat.le_trans hle hle')).bind
        fun hle'' hrow => sound_pure fun _ hle hcloses =>
          ⟨((hspliced hcloses).mono (Nat.le_trans hle'' hle)).append
            ((hrow hcloses).items.mono hle), (hrow hcloses).tail.mono hle⟩
    · rw [ev.quasiItems_item scope _ _ hshaped.tag_ne_dot hsplice]
      refine (hitem n).bind fun hle hvalue => ?_
      exact (ih hothers fun hcloses => (htail hcloses).mono hle).bind fun hle' hrow =>
        sound_pure fun _ hle hcloses =>
          ⟨.cons ((hvalue hcloses).mono (Nat.le_trans hle' hle)) ((hrow hcloses).items.mono hle),
            (hrow hcloses).tail.mono hle⟩

/-- A template is taken apart as it was read. -/
theorem quasi {template : Form} (hshaped : template.Shaped (.data depth))
    (hhas : S.Has template) : S.Finds n (ev.quasi scope depth template) := by
  have htagged {m : EvalM Value} {k : Nat} (hm : S.Finds k m) (tag : Tag) :
      S.Finds k (do return Form.tagged tag (← m)) :=
    hm.bind fun _ hquoted => finds_pure fun hcloses => (hquoted hcloses).tagged tag
  generalize hmode : Mode.data depth = mode at hshaped
  induction hshaped generalizing depth n with
  | @leaf _ token hreadable =>
    rw [ev.quasi_leaf]
    exact finds_fixed hreadable.leafDatum fun σ => Form.map_leafDatum σ token
  | empty htag =>
    rw [ev.quasi_empty scope htag]
    exact finds_fixed (show Form.Shaped .code _ from .empty htag).blameless_datum
      fun σ => Form.map_datum σ _
  | @quoting mode inner token quoted hquoting hinside hquoted ih =>
    cases hmode
    have hpart := S.part hhas (List.mem_singleton_self quoted)
    obtain htag | htag | htag | htag := Tag.isQuoting_cases hquoting
    · rw [ev.quasi_quote scope quoted htag]
      rw [htag] at hinside
      cases hinside
      exact htagged (ih hpart rfl) .quote
    · rw [ev.quasi_quasiquote scope quoted htag]
      rw [htag] at hinside
      cases hinside
      exact htagged (ih hpart rfl) .quasiquote
    · rw [htag] at hinside
      by_cases hone : depth = 1
      · subst hone
        rw [ev.quasi_unquote scope quoted htag]
        cases hinside
        exact h.value ⟨hquoted, hpart⟩ scope
      · rw [ev.quasi_unquote_deep scope quoted htag hone]
        have hinner : Mode.data (depth - 1) = inner := by simpa [Mode.inside?, hone] using hinside
        exact htagged (ih hpart hinner) .unquote
    · rw [htag] at hinside
      by_cases hone : depth = 1
      · subst hone
        rw [ev.quasi_splice scope quoted htag]
        exact sound_throw (S.splice _)
      · rw [ev.quasi_splice_deep scope quoted htag hone]
        have hinner : Mode.data (depth - 1) = inner := by simpa [Mode.inside?, hone] using hinside
        exact htagged (ih hpart hinner) .splice
  | @list mode token items htag hitems ih =>
    cases hmode
    have hrow : S.Sound (S.IfCloses RowBounded) n (ev.quasiItems scope depth .nil (items ++ [])) :=
      h.quasiItems []
        (fun item hitem =>
          have hpart := S.part hhas hitem
          ⟨hitems item hitem, hpart, fun _ => ih item hitem hpart rfl⟩)
        sound_quasiItems_nil (fun _ => Value.bounded_nil)
    rw [List.append_nil] at hrow
    rw [ev.quasi_list scope htag]
    exact hrow.bind fun _ hrow => finds_pure fun hcloses =>
      .ofList (hrow hcloses).items (hrow hcloses).tail
  | @dotted mode token dot items tail htag hitems hdot htail ih ihtail =>
    cases hmode
    have hlast : S.Has tail :=
      S.part (S.part hhas (List.mem_append_right _ (List.mem_singleton_self _)))
        (List.mem_singleton_self tail)
    have hrow : S.Sound (S.IfCloses RowBounded) n
        (ev.quasiItems scope depth .nil (items ++ [⟨dot, [tail], true⟩])) :=
      h.quasiItems [⟨dot, [tail], true⟩]
        (fun item hitem =>
          have hpart := S.part hhas (List.mem_append_left _ hitem)
          ⟨hitems item hitem, hpart, fun _ => ih item hitem hpart rfl⟩)
        (fun _ => by
          rw [ev.quasiItems_dotted scope _ _ hdot]
          exact (ihtail hlast rfl).bind fun _ hvalue => sound_quasiItems_nil hvalue)
        (fun _ => Value.bounded_nil)
    rw [ev.quasi_list scope htag]
    exact hrow.bind fun _ hrow => finds_pure fun hcloses =>
      .ofList (hrow hcloses).items (hrow hcloses).tail
  | _ => cases hmode

end Templates

/-- The procedures of the language, but for calls that read a text. -/
theorem builtin (scope : ScopeId) {p : Primitive} {args : List Value}
    (hcall : Builtin.readsText p args = false) (hargs : S.IfCloses AllBounded n args) :
    S.Finds n (Builtin.run ev scope p args) := by
  have hperform {k : Nat} (hle : n ≤ k) : S.Finds k (Builtin.perform ev scope p args) := by
    unfold Builtin.perform
    split
    case h_1 procedure arguments =>
      unfold Builtin.apply
      cases hitems : arguments.list? with
      | none => exact sound_fault rfl
      | some items =>
        refine (h.apply procedure scope false fun hcloses => ?_).bind fun _ hstep => h.chase _ hstep
        exact ((hargs hcloses arguments (by simp)).mono hle).list? hitems
    case h_2 | h_3 | h_4 => cases hcall
    case h_5 => exact finds_print _
    case h_6 => exact finds_printf _
    case h_7 => exact finds_readFromFile _
    case h_8 => exact finds_readLines _
    case h_9 => exact finds_makeFile _
    case h_10 => exact finds_makeDirectory _
    case h_11 => exact finds_writeToFile _ _
    case h_12 => exact finds_writeLines _ _
    case h_13 => exact sound_fault rfl
  unfold Builtin.run
  cases p.arity?
  case' some n =>
    dsimp only
    split
    case isTrue => exact sound_fault rfl
  all_goals
    refine sound_get fun w _ hle => ?_
    cases hcompute : Builtin.compute? w.store p args with
    | some result =>
      refine (sound_lift (Q := S.IfCloses Bounded) (Builtin.blameless_compute w.store hcompute)
        fun v hv _ hle' hcloses => ?_).bind fun _ hv => finds_mark hv
      exact (bounded_compute? ((hargs hcloses).mono hle) (hv ▸ hcompute)).mono hle'
    | none => exact hperform hle

omit h in
theorem lambdaForm {params : Form} {formals : List String} {body : List Form}
    (hparams : params.tag = .params) (hnames : List.Forall₂ Form.Holds params.parts formals)
    (hnodup : formals.Nodup) (hne : body ≠ []) (hbody : ∀ form ∈ body, S.Code form)
    (scope : ScopeId) : S.Sound S.StepOf n (Evaluator.lambdaForm (params :: body) scope) := by
  cases body with
  | nil => exact absurd rfl hne
  | cons first rest =>
    refine sound_ite (fun _ => ?_) fun hparams' => absurd hparams hparams'
    refine (sound_lift_ok (Evaluator.mapM_nameOf hnames) fun _ _ => rfl).bind fun _ hformals => ?_
    subst hformals
    exact (finds_newClosure ⟨hne, hbody, Or.inl hnodup⟩).bind fun _ hid =>
      sound_pure fun _ hle _ => Nat.lt_of_lt_of_le hid hle

theorem defineForm {target form : Form} {name : String} (htarget : target.Holds name)
    (hform : S.Code form) (scope : ScopeId) :
    S.Sound S.StepOf n (ev.defineForm [target, form] scope) := by
  have hname := Evaluator.nameOf_holds htarget
  obtain ⟨token, rfl, htag, -⟩ := htarget
  refine sound_ite (fun _ => ?_) fun htag' => absurd htag htag'
  refine (sound_lift_ok (Q := fun _ _ => True) hname fun _ _ => trivial).andThen fun name _ => ?_
  refine (h.value hform scope).bind fun _ hvalue => (safe_nameValue name _).andThen fun _ hle => ?_
  exact (safe_define scope name fun hcloses => (hvalue hcloses).mono hle).andThen fun _ _ =>
    sound_pure fun _ _ _ => trivial

theorem condForm {forms : List Form} (hne : ∀ clause ∈ forms, clause.parts ≠ [])
    (hforms : ∀ clause ∈ forms, ∀ form ∈ clause.parts, S.Code form) (scope : ScopeId)
    (tail : Bool) : S.Sound S.StepOf n (ev.condForm forms scope tail) := by
  cases forms with
  | nil => exact sound_fault rfl
  | cons => exact h.clauses hne hforms scope tail

section Lets

variable {list : Form} {pairs : List (String × Form)} {body : List Form}
  (hlist : list.Lists pairs) (hvalues : ∀ pair ∈ pairs, S.Code pair.2)
  (hbody : ∀ form ∈ body, S.Code form)

include hlist

omit h in
/-- The bindings that are read off a list. -/
theorem sound_bindingsOf :
    S.Sound (fun _ found => pairs = found) n (lift (Evaluator.bindingsOf list)) :=
  sound_lift_ok hlist.bindingsOf fun _ _ => rfl

include hvalues hbody

theorem letAllForm (scope : ScopeId) (tail : Bool) :
    S.Sound S.StepOf n (ev.letAllForm (list :: body) scope tail) := by
  refine sound_ite (fun hsymbol => ?_) fun _ => ?_
  · cases hlist.tag.symm.trans hsymbol
  · refine (sound_bindingsOf hlist).bind fun _ heq => ?_
    subst heq
    refine (h.bindingValues hvalues scope).bind fun _ hbindings => ?_
    exact (safe_newFrame scope fun hcloses => (hbindings hcloses).ofPairs).andThen fun inner _ =>
      h.body hbody inner tail

theorem letEachForm (scope : ScopeId) (tail : Bool) :
    S.Sound S.StepOf n (ev.letEachForm (list :: body) scope tail) := by
  refine (sound_bindingsOf hlist).bind fun _ heq => ?_
  subst heq
  exact (h.bindEach hvalues scope).andThen fun inner _ => h.body hbody inner tail

theorem letRecForm (scope : ScopeId) (tail : Bool) :
    S.Sound S.StepOf n (ev.letRecForm (list :: body) scope tail) := by
  refine (safe_openFrame scope).andThen fun opened _ => ?_
  refine (sound_bindingsOf hlist).bind fun _ heq => ?_
  subst heq
  exact (h.bindRec hvalues opened.1 opened.2).andThen fun _ _ => h.body hbody opened.1 tail

theorem namedLet {token : Token} {name : Form} {label : String} (htoken : token.tag = .letAll)
    (hname : name.Holds label) (hhas : S.Has ⟨token, name :: list :: body, true⟩) (hne : body ≠ [])
    (scope : ScopeId) (tail : Bool) :
    S.Sound S.StepOf n (ev.letAllForm (name :: list :: body) scope tail) := by
  have hlabel := Evaluator.nameOf_holds hname
  obtain ⟨leaf, rfl, htag, -⟩ := hname
  refine sound_ite (fun _ => ?_) fun htag' => absurd htag htag'
  refine (sound_lift_ok (Q := fun _ _ => True) hlabel fun _ _ => trivial).andThen fun label _ => ?_
  refine (sound_bindingsOf hlist).bind fun _ heq => ?_
  subst heq
  refine (h.bindingValues hvalues scope).bind fun _ harguments =>
    (safe_openFrame scope).andThen fun opened hle => ?_
  have hclosure : Closure.MadeOf S.Has ⟨pairs.map (·.1), body, opened.1, some label⟩ :=
    ⟨hne, hbody, Or.inr ⟨_, hhas, htoken, _, list, pairs, rfl, htag, hlist.tag, hlist.binds, rfl⟩⟩
  refine (finds_newClosure hclosure).bind fun {_ id} hle' hid => ?_
  have hbounded : (Value.closure id).Bounded _ := hid
  refine (safe_bindIn opened.2 label fun _ => hbounded).andThen fun _ hle'' =>
    h.applyClosure hclosure (fun hcloses v hv => ?_) tail
  obtain ⟨entry, hentry, rfl⟩ := List.mem_map.mp hv
  exact (harguments hcloses entry hentry).mono (Nat.le_trans hle (Nat.le_trans hle' hle''))

end Lets

end Keeps

end Standard

end TowerLisp
