import TowerLisp.Proofs.Desugaring
import TowerLisp.Proofs.TailDescents

/-!
Rules for what evaluation ends in under limits that are large enough. There is one for each kind of
form: it takes what the parts of the form end in, be it a value or a fault, and gives what the form
ends in. Since the position of a form does not matter, all of them are about values. So a result is
found without counting how deep it nests.
-/

namespace TowerLisp

open EvalM (CutShort Refines)

variable {α β : Type} {w w' w'' : World} {fault : Fault}

/-- What comes of a procedure that is applied to arguments. -/
def Evaluator.applied (ev : Evaluator) (procedure : Value) (arguments : List Value)
    (scope : ScopeId) : EvalM Value := do
  ev.finish (← ev.apply procedure arguments scope false)

theorem EvalM.bind_of_error {m : EvalM α} {f : α → EvalM β} (h : m w = .error fault w') :
    (m >>= f) w = .error fault w' := by
  change EStateM.bind m f w = _
  rw [EStateM.bind, h]

namespace EndsIn

variable {m : Evaluator → EvalM α} {f : Evaluator → α → EvalM β} {a : α}
  {result : EStateM.Result Fault World β}

theorem of_within {budget : Nat} (h : Within budget m w a w') : EndsIn m w (.ok a w') := by
  obtain ⟨length, h⟩ := h
  exact ⟨id, max length budget, fun steps depth hsteps hdepth =>
    h steps depth (by omega) (by omega)⟩

theorem exists_within (h : EndsIn m w (.ok a w')) : ∃ budget, Within budget m w a w' := by
  obtain ⟨-, limit, h⟩ := h
  exact ⟨limit, limit, h⟩

/-- What nests nothing needs no limits. -/
theorem of_eq (h : ∀ ev, m ev w = .ok a w') : EndsIn m w (.ok a w') :=
  ⟨id, 0, fun _ _ _ _ => h _⟩

theorem bind (h : EndsIn m w (.ok a w')) (hrest : EndsIn (fun ev => f ev a) w' result) :
    EndsIn (fun ev => m ev >>= f ev) w result := by
  obtain ⟨-, limit, h⟩ := h
  obtain ⟨hcut, limit', hrest⟩ := hrest
  refine ⟨hcut, max limit limit', fun steps depth hsteps hdepth => ?_⟩
  exact (EvalM.bind_of_ok (h steps depth (by omega) (by omega))).trans
    (hrest steps depth (by omega) (by omega))

theorem bind_error (h : EndsIn m w (.error fault w')) :
    EndsIn (fun ev => m ev >>= f ev) w (.error fault w') := by
  obtain ⟨hcut, limit, h⟩ := h
  exact ⟨hcut, limit, fun steps depth hsteps hdepth =>
    EvalM.bind_of_error (h steps depth hsteps hdepth)⟩

/-- What comes after a part that nests nothing. -/
theorem after (hm : ∀ ev, m ev w = .ok a w') (h : EndsIn (fun ev => m ev >>= f ev) w result) :
    EndsIn (fun ev => f ev a) w' result := by
  obtain ⟨hcut, limit, h⟩ := h
  exact ⟨hcut, limit, fun steps depth hsteps hdepth =>
    (EvalM.bind_of_ok (hm _)).symm.trans (h steps depth hsteps hdepth)⟩

section Levels

variable {form : Form} {scope : ScopeId} {v : Value} {result : EStateM.Result Fault World Value}

/-- What a level is finished with is found by the level above as well. -/
theorem of_next {m : Evaluator → EvalM Step} (n : Evaluator → EvalM Step)
    (hnext : ∀ ev : Evaluator, n ev.next = m ev)
    (hbelow : ∀ {ev ev' : Evaluator}, ev.Below ev' → Refines (n ev) (n ev'))
    (h : EndsIn (fun ev => m ev >>= ev.finish) w result) :
    EndsIn (fun ev => n ev >>= ev.finish) w result := by
  refine h.of_refines fun limit => ⟨limit + 1, fun steps depth hsteps hdepth => ?_⟩
  have hlevel : (evaluator limit (limit + 1)).Below (evaluator steps depth) :=
    evaluator_below (by omega) hdepth
  have hfinish : (evaluator limit limit).Below (evaluator steps depth) :=
    evaluator_below (by omega) (by omega)
  rw [← hnext, ← evaluator_succ]
  exact .bind (hbelow hlevel) hfinish.finish

theorem value_of_evalForm
    (h : EndsIn (fun ev => ev.evalForm form scope false >>= ev.finish) w result) :
    EndsIn (fun ev => ev.value form scope) w result :=
  h.of_next (fun ev => ev.eval form scope false) (fun _ => rfl) fun hbelow =>
    hbelow.eval form scope false

theorem applied_of_applyValue {procedure : Value} {arguments : List Value}
    (h : EndsIn (fun ev => ev.applyValue procedure arguments scope false >>= ev.finish) w result) :
    EndsIn (fun ev => ev.applied procedure arguments scope) w result :=
  h.of_next (fun ev => ev.apply procedure arguments scope false) (fun _ => rfl) fun hbelow =>
    hbelow.apply procedure arguments scope false

/-- A finished step is its value. -/
theorem of_done {m : Evaluator → EvalM Value} (h : EndsIn m w result) :
    EndsIn (fun ev => (do return Step.done (← m ev)) >>= ev.finish) w result := by
  have hdone : (fun ev => (do return Step.done (← m ev)) >>= ev.finish) = m := by
    funext ev
    simp only [bind_assoc, pure_bind, Evaluator.finish_done, bind_pure]
  rwa [hdone]

end Levels

section Calls

variable {token : Token} {name : String} {form : Form} {forms : List Form} {scope : ScopeId}
  {v procedure : Value} {values arguments : List Value}
  {result : EStateM.Result Fault World Value}

theorem values_nil : EndsIn (fun ev => ev.values scope []) w (.ok [] w) :=
  of_eq fun _ => rfl

theorem values_cons (h : EndsIn (fun ev => ev.value form scope) w (.ok v w'))
    (hrest : EndsIn (fun ev => ev.values scope forms) w' (.ok values w'')) :
    EndsIn (fun ev => ev.values scope (form :: forms)) w (.ok (v :: values) w'') :=
  h.bind (hrest.bind (of_eq fun _ => rfl))

theorem values_cons_fault (h : EndsIn (fun ev => ev.value form scope) w (.ok v w'))
    (hrest : EndsIn (fun ev => ev.values scope forms) w' (.error fault w'')) :
    EndsIn (fun ev => ev.values scope (form :: forms)) w (.error fault w'') :=
  h.bind hrest.bind_error

/-- The operands after one that is at fault are not evaluated. -/
theorem values_fault (h : EndsIn (fun ev => ev.value form scope) w (.error fault w')) :
    EndsIn (fun ev => ev.values scope (form :: forms)) w (.error fault w') :=
  h.bind_error

/-- A call of what a name stands for. -/
theorem value_call (htoken : token.Names name)
    (h : w.store.lookup? scope name = some procedure)
    (harguments : EndsIn (fun ev => ev.values scope forms) w (.ok arguments w'))
    (happly : EndsIn (fun ev => ev.applied procedure arguments scope) w' result) :
    EndsIn (fun ev => ev.value ⟨token, forms, true⟩ scope) w result := by
  obtain ⟨-, limit, harguments⟩ := harguments
  obtain ⟨hcut, limit', happly⟩ := happly
  refine ⟨hcut, max limit limit' + 1, fun steps depth hsteps hdepth => ?_⟩
  obtain ⟨inner, rfl⟩ : ∃ inner, depth = inner + 1 := ⟨depth - 1, by omega⟩
  change ((evaluator steps inner).evalForm ⟨token, forms, true⟩ scope false >>=
    (evaluator steps (inner + 1)).finish) w = _
  rw [Evaluator.evalForm_name _ htoken, bind_assoc, EvalM.bind_of_ok (EvalM.lookup_eq h),
    bind_assoc, EvalM.bind_of_ok (harguments steps inner (by omega) (by omega))]
  exact happly steps (inner + 1) (by omega) (by omega)

/-- A call whose operands are at fault. -/
theorem value_call_fault (htoken : token.Names name)
    (h : w.store.lookup? scope name = some procedure)
    (harguments : EndsIn (fun ev => ev.values scope forms) w (.error fault w')) :
    EndsIn (fun ev => ev.value ⟨token, forms, true⟩ scope) w (.error fault w') := by
  refine value_of_evalForm ?_
  simp only [Evaluator.evalForm_name _ htoken, bind_assoc]
  exact (of_eq fun _ => EvalM.lookup_eq h).bind harguments.bind_error

theorem applied_primitive {p : Primitive}
    (h : EndsIn (fun ev => Builtin.run ev scope p arguments) w result) :
    EndsIn (fun ev => ev.applied (.primitive p) arguments scope) w result :=
  applied_of_applyValue h.of_done

/-- A procedure whose body is one form. -/
theorem applied_closure {id : ClosureId} {closure : Closure} {body : Form}
    (hclosure : w.store.closure? id = some closure) (hbody : closure.body = [body])
    (hlength : arguments.length = closure.formals.length)
    (h : EndsIn
      (fun ev => ev.value body (w.withFrame closure.scope closure.formals arguments).1)
      (w.withFrame closure.scope closure.formals arguments).2 result) :
    EndsIn (fun ev => ev.applied (.closure id) arguments scope) w result := by
  have hframe : EndsIn (fun _ => EvalM.newFrame closure.scope
      (.ofPairs (closure.formals.zip arguments))) w (.ok _ _) := of_eq fun _ => rfl
  have hcount : ¬ arguments.length ≠ closure.formals.length := not_not.mpr hlength
  have hrun := (Evaluator.endsIn_value_iff body _ _ _).mp h
  refine applied_of_applyValue ?_
  simp only [Evaluator.applyValue, bind_assoc]
  refine bind (m := fun _ => get) (a := w) (of_eq fun _ => rfl) ?_
  simp only [hclosure, Evaluator.applyClosure, hcount, if_false, hbody, bind_assoc]
  exact hframe.bind hrun.of_done

end Calls

section Clauses

variable {token : Token} {clause test last : Form} {rest : List Form} {scope : ScopeId}
  {v : Value} {result : EStateM.Result Fault World Value}

theorem clauses_true (hclause : clause.parts = [test, last])
    (htest : EndsIn (fun ev => ev.value test scope) w (.ok v w')) (hv : v.isTrue = true)
    (hlast : EndsIn (fun ev => ev.value last scope) w' result) :
    EndsIn (fun ev => ev.clauses scope false (clause :: rest) >>= ev.finish) w result := by
  simp only [Evaluator.clauses_cons _ hclause, bind_assoc]
  refine htest.bind ?_
  simp only [Evaluator.afterTest_true _ hv (List.cons_ne_nil last [])]
  exact hlast

theorem clauses_false {forms : List Form} (hclause : clause.parts = test :: forms)
    (htest : EndsIn (fun ev => ev.value test scope) w (.ok v w')) (hv : v.isTrue = false)
    (hrest : EndsIn (fun ev => ev.clauses scope false rest >>= ev.finish) w' result) :
    EndsIn (fun ev => ev.clauses scope false (clause :: rest) >>= ev.finish) w result := by
  simp only [Evaluator.clauses_cons _ hclause, bind_assoc]
  refine htest.bind ?_
  simpa only [Evaluator.afterTest_false _ hv] using hrest

theorem value_clauses (htoken : token.tag = .cond)
    (h : EndsIn (fun ev => ev.clauses scope false (clause :: rest) >>= ev.finish) w result) :
    EndsIn (fun ev => ev.value ⟨token, clause :: rest, true⟩ scope) w result := by
  refine value_of_evalForm ?_
  simp only [Evaluator.evalForm_cond _ htoken]
  exact h

end Clauses

end EndsIn

end TowerLisp
