import TowerLisp.Builtin.Effect
import TowerLisp.Eval.Special

/-!
The evaluator. `Evaluator.next` does one level of evaluation and leaves what is
nested in it to the evaluator it is given; `evaluator` stacks as many levels as
the limit on the depth allows. Calls in tail position are handed back to the
caller and do not add to the depth.
-/

namespace TowerLisp

namespace Evaluator

open EvalM (lift lookup)

/-- The value of a form that is not compound. -/
def evalLeaf (token : Token) (scope : ScopeId) : EvalM Value :=
  match token.tag with
  | .number => lift (Form.numberValue token.payload)
  | .string | .character => lift (Form.stringValue token.payload)
  | .boolean => pure (Form.booleanValue token.payload)
  | .symbol | .operator => do lookup scope (← lift token.payload.written)
  | .eof | .empty => pure .nil
  | _ => do throw (.malformed (.cannotEvaluate (← lift token.shown)) token.place)

/-- Applies a value to arguments. Procedures of the language run at once. -/
def applyValue (ev : Evaluator) (procedure : Value) (arguments : List Value) (scope : ScopeId)
    (tail : Bool) : EvalM Step :=
  match procedure with
  | .closure id => do
    match (← get).store.closure? id with
    | some closure => ev.applyClosure closure arguments tail
    | none => throw (.notProcedure "")
  | .primitive p => do return .done (← Builtin.run ev scope p arguments)
  | v => do
    throw (.notProcedure (← EvalM.printed v))

/-- A form in parentheses that starts with a literal: a list, whose tail is
evaluated before its items. -/
def evalList (ev : Evaluator) (parts : List Form) (scope : ScopeId) : EvalM Value :=
  match parts.getLast? with
  | some last =>
    if last.tag = .dot then
      match last.parts with
      | [] => missingPart
      | form :: _ => do
        let tail ← ev.value form scope
        return .ofList (← ev.values scope parts.dropLast) tail
    else do return .list (← ev.values scope parts)
  | none => pure .nil

/-- One level of evaluation. -/
def evalForm (ev : Evaluator) (form : Form) (scope : ScopeId) (tail : Bool) : EvalM Step :=
  if !form.compound then do return .done (← evalLeaf form.token scope)
  else
    let parts := form.parts
    match form.tag with
    | .quote => quoteForm parts
    | .quasiquote => ev.quasiquoteForm parts scope
    | .unquote => malformed .unquoteForm
    | .splice => malformed .spliceForm
    | .lambda => lambdaForm parts scope
    | .define => ev.defineForm parts scope
    | .cond => ev.condForm parts scope tail
    | .letAll => ev.letAllForm parts scope tail
    | .letEach => ev.letEachForm parts scope tail
    | .letRec => ev.letRecForm parts scope tail
    | .sequence => ev.body scope tail parts
    | .symbol | .operator => do
      let procedure ← lookup scope (← lift form.token.payload.written)
      let arguments ← ev.values scope parts
      ev.applyValue procedure arguments scope tail
    | .apply =>
      match parts with
      | [] => throw (.breakdown .wrongParts)
      | head :: operands => do
        let procedure ← ev.value head scope
        let arguments ← ev.values scope operands
        ev.applyValue procedure arguments scope tail
    | .list => do return .done (← ev.evalList parts scope)
    | .empty => pure (.done .nil)
    | _ => do
      throw (.malformed (.cannotEvaluateForm (← lift form.text)) form.token.place)

/-- The evaluator that refuses everything. -/
def refuse (steps : Nat) : Evaluator where
  steps := steps
  eval := fun _ _ _ => throw .tooDeep
  apply := fun _ _ _ _ => throw .tooDeep

/-- One level of evaluation on top of an evaluator for what is nested in it. -/
def next (ev : Evaluator) : Evaluator where
  steps := ev.steps
  eval := ev.evalForm
  apply := ev.applyValue

end Evaluator

/-- The evaluator for at most `depth` nested evaluations and at most `steps` calls
in a chain of tail calls. A level is built only when something is nested in it. -/
def evaluator (steps : Nat) : (depth : Nat) → Evaluator
  | 0 => .refuse steps
  | depth + 1 =>
    { steps := steps
      eval := fun form scope tail => (evaluator steps depth).evalForm form scope tail
      apply := fun procedure arguments scope tail =>
        (evaluator steps depth).applyValue procedure arguments scope tail }

theorem evaluator_steps (steps depth : Nat) : (evaluator steps depth).steps = steps := by
  cases depth <;> rfl

/-- Each level is one step of evaluation on top of the level below. -/
theorem evaluator_succ (steps depth : Nat) :
    evaluator steps (depth + 1) = (evaluator steps depth).next := by
  simp [evaluator, Evaluator.next, evaluator_steps]

end TowerLisp
