import TowerLisp.Proofs.BindingForms
import TowerLisp.Session.Basic

/-!
The order of evaluation. A form that evaluates subexpressions in its own scope does so one after
another, each once, and stops at the first fault; what it does with their values comes after all
of them. Applications, lists and the bindings of a let follow the order of the text, but the part
behind a dot comes before the items in front of it.
-/

namespace TowerLisp

open EvalM (endWorld)

/-- Computations are carried out one after another. `InTurn actions w values fault? w'` tells the
values of those that came to an end and the fault, if there is one, of the next one. -/
inductive InTurn : List (EvalM Value) → World → List Value → Option Fault → World → Prop where
  | nil {w : World} : InTurn [] w [] none w
  | raised {action : EvalM Value} {rest : List (EvalM Value)} {fault : Fault} {w w' : World} :
      action w = .error fault w' → InTurn (action :: rest) w [] (some fault) w'
  | next {action : EvalM Value} {rest : List (EvalM Value)} {value : Value} {values : List Value}
      {fault? : Option Fault} {w w' w'' : World} :
      action w = .ok value w' → InTurn rest w' values fault? w'' →
      InTurn (action :: rest) w (value :: values) fault? w''

/-- A computation carries out others one after another before anything else. If one of them
raises a fault, that is the end; otherwise their values are all that is left to know of them. -/
def TakesInTurn {α : Type} (actions : List (EvalM Value)) (rest : List Value → EvalM α)
    (m : EvalM α) : Prop :=
  ∀ w, ∃ values fault? w', InTurn actions w values fault? w' ∧
    m w = match fault? with
      | none => rest values w'
      | some fault => .error fault w'

/-- The evaluations of forms, none of them in tail position. -/
def Evaluator.operands (ev : Evaluator) (scope : ScopeId) (forms : List Form) :
    List (EvalM Value) :=
  forms.map (ev.value · scope)

namespace InTurn

variable {actions : List (EvalM Value)} {w w' : World} {values : List Value}
  {fault? : Option Fault}

/-- There is one way to carry out computations one after another. -/
theorem unique (h : InTurn actions w values fault? w') {values' : List Value}
    {fault?' : Option Fault} {w'' : World} (h' : InTurn actions w values' fault?' w'') :
    values = values' ∧ fault? = fault?' ∧ w' = w'' := by
  induction h generalizing values' with
  | nil =>
    cases h'
    exact ⟨rfl, rfl, rfl⟩
  | raised hfault =>
    cases h' with
    | raised hfault' =>
      cases hfault.symm.trans hfault'
      exact ⟨rfl, rfl, rfl⟩
    | next hvalue => cases hfault.symm.trans hvalue
  | next hvalue _ ih =>
    cases h' with
    | raised hfault => cases hvalue.symm.trans hfault
    | next hvalue' hrest =>
      cases hvalue.symm.trans hvalue'
      obtain ⟨rfl, rfl, rfl⟩ := ih hrest
      exact ⟨rfl, rfl, rfl⟩

end InTurn

namespace TakesInTurn

variable {α : Type} {actions : List (EvalM Value)} {rest rest' : List Value → EvalM α}
  {m : EvalM α}

theorem nil (rest : List Value → EvalM α) : TakesInTurn [] rest (rest []) :=
  fun w => ⟨[], none, w, .nil, rfl⟩

/-- One computation, and the others after it. -/
theorem cons {action : EvalM Value} {f : Value → EvalM α}
    (h : ∀ value, TakesInTurn actions (fun values => rest (value :: values)) (f value)) :
    TakesInTurn (action :: actions) rest (action >>= f) := by
  intro w
  cases haction : action w with
  | error fault w' =>
    refine ⟨[], some fault, w', .raised haction, ?_⟩
    simp only [bind, EStateM.bind, haction]
  | ok value w' =>
    obtain ⟨values, fault?, w'', hturn, hf⟩ := h value w'
    refine ⟨value :: values, fault?, w'', .next haction hturn, ?_⟩
    simpa only [bind, EStateM.bind, haction] using hf

/-- The values of forms are found from left to right. -/
theorem values (ev : Evaluator) (scope : ScopeId) (forms : List Form)
    (rest : List Value → EvalM α) :
    TakesInTurn (ev.operands scope forms) rest (ev.values scope forms >>= rest) := by
  induction forms generalizing rest with
  | nil => exact .nil rest
  | cons form forms ih =>
    simp only [Evaluator.values, bind_assoc, pure_bind]
    exact .cons fun value => ih fun values => rest (value :: values)

end TakesInTurn

/-- What is written by forms that are evaluated in turn, if nothing is written after them. -/
theorem TakesInTurn.output_eq {ev : Evaluator} {scope : ScopeId} {forms : List Form}
    {rest : List Value → EvalM Step} {m : EvalM Step}
    (h : TakesInTurn (ev.operands scope forms) rest m)
    (hrest : ∀ values w, (endWorld (rest values w)).output = w.output) (w : World) :
    (endWorld (m w)).output = (endWorld (ev.values scope forms w)).output := by
  obtain ⟨values, fault?, w', hturn, hm⟩ := h w
  obtain ⟨values', fault?', w'', hturn', hvalues⟩ := TakesInTurn.values ev scope forms pure w
  obtain ⟨rfl, rfl, rfl⟩ := hturn.unique hturn'
  rw [bind_pure] at hvalues
  rw [hm, hvalues]
  cases fault? with
  | none => exact hrest values w'
  | some fault => rfl

namespace Evaluator

variable (ev : Evaluator) {token : Token} {parts : List Form} {scope : ScopeId} {tail : Bool}

/-- Applies the first of some values to the others. -/
def callFirst (scope : ScopeId) (tail : Bool) : List Value → EvalM Step
  | [] => throw (.breakdown .wrongParts)
  | procedure :: arguments => ev.applyValue procedure arguments scope tail

/-- The name in front of a call has its value before the operands have theirs. -/
theorem evalForm_headed (h : token.tag = .symbol ∨ token.tag = .operator) :
    ev.evalForm ⟨token, parts, true⟩ scope tail = (do
      let procedure ← evalLeaf token scope
      let arguments ← ev.values scope parts
      ev.applyValue procedure arguments scope tail) := by
  obtain ⟨tag, payload, place⟩ := token
  rcases h with h | h <;> cases h <;> exact (bind_assoc ..).symm

theorem evalForm_list (h : token.tag = .list) :
    ev.evalForm ⟨token, parts, true⟩ scope tail =
      do return .done (← ev.evalList parts scope) := by
  obtain ⟨tag, payload, place⟩ := token
  cases h
  rfl

/-- A list without a part behind a dot. -/
theorem evalList_plain (h : ∀ item ∈ parts, item.tag ≠ .dot) :
    ev.evalList parts scope = do return .list (← ev.values scope parts) := by
  unfold evalList
  cases hlast : parts.getLast? with
  | none =>
    rw [List.getLast?_eq_none_iff.mp hlast]
    rfl
  | some last =>
    have hplain : last.tag ≠ .dot := h last (List.mem_of_getLast? hlast)
    simp only [if_neg hplain]

/-- A list with a part behind a dot. -/
theorem evalList_tail {dot : Token} (h : dot.tag = .dot) (items : List Form) (last : Form) :
    ev.evalList (items ++ [⟨dot, [last], true⟩]) scope = (do
      let tail ← ev.value last scope
      return .ofList (← ev.values scope items) tail) := by
  unfold evalList
  simp only [List.getLast?_append, List.getLast?_singleton, Option.some_or, List.dropLast_concat]
  rw [if_pos (show (Form.mk dot [last] true).tag = .dot from h)]

end Evaluator

/-- In a form of a text, or in code anywhere in it, subexpressions are evaluated one after
another, each once and in the order of the text, up to the first fault: the operator and the
operands of an application, the items of a list, and what the names of a let are bound to. One
part is out of order: what stands behind the dot of a list is evaluated before its items. -/
theorem subexpressions_in_turn {limit : Nat} {source : List Char} {whole form : Form}
    (hwhole : whole ∈ (Reader.readFormsWithin limit source).1) (hcode : form.HasCode .code whole)
    (hcompound : form.compound = true) (steps depth : Nat) (scope : ScopeId) (tail : Bool) :
    let ev := evaluator steps depth
    let outcome := (evaluator steps (depth + 1)).eval form scope tail
    (form.tag = .symbol ∨ form.tag = .operator →
      TakesInTurn (Evaluator.evalLeaf form.token scope :: ev.operands scope form.parts)
        (ev.callFirst scope tail) outcome) ∧
    (form.tag = .apply → form.parts ≠ [] ∧
      TakesInTurn (ev.operands scope form.parts) (ev.callFirst scope tail) outcome) ∧
    (form.tag = .list →
      ((∀ item ∈ form.parts, item.tag ≠ .dot) ∧
        TakesInTurn (ev.operands scope form.parts)
          (fun values => pure (.done (.list values))) outcome) ∨
      ∃ items dot last, form.parts = items ++ [⟨dot, [last], true⟩] ∧ dot.tag = .dot ∧
        TakesInTurn (ev.operands scope (last :: items))
          (fun values => pure (.done (.ofList values.tail (values.headD .nil)))) outcome) ∧
    (form.tag = .letAll → ∃ list pairs body, list.Lists pairs ∧
      (form.parts = list :: body ∧
          TakesInTurn (ev.operands scope (pairs.map Prod.snd))
            (ev.enterLet (pairs.map Prod.fst) body scope tail) outcome ∨
        ∃ name label, form.parts = name :: list :: body ∧ name.Holds label ∧
          TakesInTurn (ev.operands scope (pairs.map Prod.snd))
            (ev.enterLoop label (pairs.map Prod.fst) body scope tail) outcome)) := by
  intro ev outcome
  have hshaped := hcode.shaped hwhole
  refine ⟨fun htag => ?_, fun htag => ?_, fun htag => ?_, fun htag => ?_⟩
  · obtain ⟨token, parts, compound⟩ := form
    cases hcompound
    rw [show outcome = _ from ev.evalForm_headed htag]
    exact .cons fun procedure => .values ev scope parts _
  · obtain ⟨token, head, operands, rfl, htoken⟩ := hshaped.application_parts htag
    refine ⟨List.cons_ne_nil _ _, ?_⟩
    rw [show outcome = _ from ev.evalForm_apply htoken]
    exact .cons fun procedure => .values ev scope operands _
  · obtain ⟨token, parts, rfl, htoken, hplain | ⟨items, dot, last, rfl, hdot⟩⟩ :=
      hshaped.list_parts htag
    · refine .inl ⟨hplain, ?_⟩
      rw [show outcome = _ from ev.evalForm_list htoken, ev.evalList_plain hplain, bind_assoc]
      exact .values ev scope parts _
    · refine .inr ⟨items, dot, last, rfl, hdot, ?_⟩
      rw [show outcome = _ from ev.evalForm_list htoken, ev.evalList_tail hdot, bind_assoc]
      simp only [bind_assoc]
      exact .cons fun tail => .values ev scope items _
  · obtain ⟨token, list, pairs, body, rfl, htoken, hlist, -⟩ |
      ⟨token, name, list, label, pairs, body, rfl, htoken, hname, hlist, -⟩ :=
      hshaped.letAll htag
    · refine ⟨list, pairs, body, hlist, .inl ⟨rfl, ?_⟩⟩
      rw [show outcome = _ from ev.evalForm_letPlain htoken hlist]
      exact .values ev scope _ _
    · refine ⟨list, pairs, body, hlist, .inr ⟨name, label, rfl, hname, ?_⟩⟩
      rw [show outcome = _ from ev.evalForm_letNamed htoken hname hlist]
      exact .values ev scope _ _

/-- The second binding of a let with a name is evaluated after the first one, which defines what
it asks for. -/
theorem subexpressions_in_turn_defined :
    let source := "(let f ((a (define x 1)) (b x)) b)".toList
    let form := (Reader.readFormsWithin 9 source).1.headD (.leaf ⟨.eof, .none, none⟩)
    form ∈ (Reader.readFormsWithin 9 source).1 ∧ form.HasCode .code form ∧
      form.compound = true ∧ form.tag = .letAll ∧
      ∃ list pairs body, list.Lists pairs ∧ ∃ name label, form.parts = name :: list :: body ∧
        name.Holds label ∧
        TakesInTurn ((evaluator 9 8).operands Session.top (pairs.map Prod.snd))
          ((evaluator 9 8).enterLoop label (pairs.map Prod.fst) body Session.top false)
          ((evaluator 9 9).eval form Session.top false) := by
  intro source form
  -- asked together, so that the text is read once
  obtain ⟨hread, hcompound, htag, hfirst⟩ : (Reader.readFormsWithin 9 source).1.isEmpty = false ∧
      form.compound = true ∧ form.tag = .letAll ∧
      form.parts.head?.map Form.tag = some .symbol := by
    decide +kernel
  have hform : form ∈ (Reader.readFormsWithin 9 source).1 := Reader.headD_mem hread _
  obtain ⟨-, -, -, hlet⟩ :=
    subexpressions_in_turn hform .here hcompound 9 8 Session.top false
  obtain ⟨list, pairs, body, hlist, ⟨hparts, -⟩ | hnamed⟩ := hlet htag
  · -- the first part is the name, which is no list
    rw [hparts] at hfirst
    cases hlist.tag.symm.trans (Option.some.inj hfirst)
  · exact ⟨hform, .here, hcompound, htag, list, pairs, body, hlist, hnamed⟩

/-- What follows the dot of a list is written before the items of the list are. -/
theorem dotted_tail_before_items :
    let source := "(1 (print \"a\") . (print \"b\"))".toList
    let form := (Reader.readFormsWithin 9 source).1.headD (.leaf ⟨.eof, .none, none⟩)
    let outcome := (evaluator 9 9).eval form Session.top false
    form ∈ (Reader.readFormsWithin 9 source).1 ∧
      ∃ items dot last, form.parts = items ++ [⟨dot, [last], true⟩] ∧ dot.tag = .dot ∧
        ∀ rest : List Value → EvalM Step,
          (∀ values w, (endWorld (rest values w)).output = w.output) →
          ¬ TakesInTurn ((evaluator 9 8).operands Session.top (items ++ [last])) rest outcome := by
  intro source form outcome
  let w := Session.initial .empty ⟨[]⟩ []
  let written := form.parts.dropLast ++ (form.parts.getLast?.map Form.parts).getD []
  -- asked together, so that the text is read once
  obtain ⟨hread, htag, hinside, hother⟩ : (Reader.readFormsWithin 9 source).1.isEmpty = false ∧
      form.tag = .list ∧ form.parts.any (·.tag = .dot) = true ∧
      (endWorld (outcome w)).output ≠
        (endWorld ((evaluator 9 8).values Session.top written w)).output := by
    decide +kernel
  have hform : form ∈ (Reader.readFormsWithin 9 source).1 := Reader.headD_mem hread _
  obtain ⟨token, parts, hparts, -, hplain | ⟨items, dot, last, rfl, hdot⟩⟩ :=
    (Form.HasCode.here.shaped hform).list_parts htag
  · rw [hparts] at hinside
    obtain ⟨item, hitem, hitemdot⟩ := List.any_eq_true.mp hinside
    exact (hplain item hitem (by simpa using hitemdot)).elim
  · refine ⟨hform, items, dot, last, by rw [hparts], hdot, fun rest hrest hturns => ?_⟩
    have hforms : items ++ [last] = written := by simp [written, hparts]
    rw [hforms] at hturns
    exact hother (hturns.output_eq hrest w)

end TowerLisp
