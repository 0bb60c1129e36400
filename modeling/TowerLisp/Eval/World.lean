import TowerLisp.Session.Settings
import TowerLisp.Store.Basic
import TowerLisp.Value.Equality
import TowerLisp.Value.Printer

/-!
What evaluation acts on: the store, the files, the text written so far and the
text that is still to be read. A fault leaves the state as it was when the fault
arose, so that what was done before it stays done.
-/

namespace TowerLisp

/-- What evaluation wants to know of its surroundings. -/
inductive Demand where
  | file (path : Path)
  | line
deriving DecidableEq, Repr

structure World where
  store : Store
  files : FileTree
  settings : Settings
  output : String
  input : List Char
  /-- The next mark for what cannot be compared. -/
  nextMark : Nat
  /-- What was asked for, latest first. Nothing depends on it: it tells a caller who
  fills in files and input as they are needed what to fill in. -/
  demands : List Demand

/-- A computation on the world that may end in a fault. -/
abbrev EvalM := EStateM Fault World

namespace EvalM

/-- A computation that does not touch the world. -/
def lift {α : Type} : Except Fault α → EvalM α
  | .ok a => pure a
  | .error fault => throw fault

/-- A computation that only looks at the store. -/
def withStore {α : Type} (f : Store → Except Fault α) : EvalM α := do
  lift (f (← get).store)

/-- A change of the store that gives a result. -/
def updateStore {α : Type} (f : Store → α × Store) : EvalM α :=
  modifyGet fun w =>
    let (a, store) := f w.store
    (a, { w with store })

/-- A change of the store. -/
def modifyStore (f : Store → Store) : EvalM Unit :=
  modify fun w => { w with store := f w.store }

/-- Notes what is asked for. -/
def demand (d : Demand) : EvalM Unit :=
  modify fun w => { w with demands := d :: w.demands }

/-- Notes paths that are asked for. -/
def demandFiles : List Path → EvalM Unit
  | [] => pure ()
  | p :: rest => do
    demand (.file p)
    demandFiles rest

/-- Marks a value that has been computed, if it has to be told from others. -/
def mark (v : Value) : EvalM Value :=
  if v.lacksMarks then
    modifyGet fun w =>
      let (v, nextMark) := v.fillMarks w.nextMark
      (v, { w with nextMark })
  else pure v

def write (text : String) : EvalM Unit :=
  modify fun w => { w with output := w.output ++ text }

/-- The printed form of a value that nests within the limit. -/
def printed (v : Value) : EvalM String := do
  let w ← get
  lift (v.printedWithin w.settings.depthLimit w.store)

/-- What a program prints of a value that nests within the limit. -/
def display (v : Value) : EvalM String := do
  let w ← get
  lift (v.displayWithin w.settings.depthLimit w.store)

/-- A new scope with one more frame. -/
def newFrame (scope : ScopeId) (bindings : Bindings) : EvalM ScopeId :=
  updateStore (·.withFrame scope bindings)

def fork (scope : ScopeId) : EvalM ScopeId :=
  updateStore (·.fork scope)

/-- The innermost binding of a name. -/
def lookup (scope : ScopeId) (name : String) : EvalM Value := do
  match (← get).store.lookup? scope name with
  | some value => return value
  | none => throw (.unbound name)

/-- Gives a procedure a name if it has none. -/
def nameValue (name : String) : Value → EvalM Unit
  | .closure id => modifyStore (·.nameClosure id name)
  | _ => pure ()

end EvalM

/-- An evaluation that is not finished ends in a call in tail position, which is
left to the caller. -/
inductive Step where
  | done (value : Value)
  | call (form : Form) (scope : ScopeId)

/-- How nested forms are evaluated and procedures applied. `steps` bounds the
number of calls in a chain of tail calls. -/
structure Evaluator where
  steps : Nat
  eval : Form → ScopeId → (tail : Bool) → EvalM Step
  apply : Value → List Value → ScopeId → (tail : Bool) → EvalM Step

namespace Evaluator

/-- Carries out calls in tail position until there is a value. -/
def chase (ev : Evaluator) : Nat → Step → EvalM Value
  | _, .done value => pure value
  | 0, .call .. => throw (.breakdown .tooLong)
  | n + 1, .call form scope => do
    let step ← ev.eval form scope true
    chase ev n step

def finish (ev : Evaluator) (step : Step) : EvalM Value :=
  ev.chase ev.steps step

/-- The value of a form that is not in tail position. -/
def value (ev : Evaluator) (form : Form) (scope : ScopeId) : EvalM Value := do
  ev.finish (← ev.eval form scope false)

/-- The value of a form, by way of its tail calls. -/
def run (ev : Evaluator) (form : Form) (scope : ScopeId) : EvalM Value := do
  ev.finish (← ev.eval form scope true)

/-- The values of forms, from left to right. -/
def values (ev : Evaluator) (scope : ScopeId) : List Form → EvalM (List Value)
  | [] => pure []
  | form :: rest => do
    let first ← ev.value form scope
    return first :: (← values ev scope rest)

/-- Evaluates forms for their effects, from left to right. -/
def evaluateEach (ev : Evaluator) (scope : ScopeId) : List Form → EvalM Unit
  | [] => pure ()
  | form :: rest => do
    let _ ← ev.value form scope
    evaluateEach ev scope rest

/-- A sequence of forms. The last one inherits the tail position; an empty
sequence gives the empty list. -/
def body (ev : Evaluator) (scope : ScopeId) (tail : Bool) : List Form → EvalM Step
  | [] => pure (.done .nil)
  | [last] => ev.eval last scope tail
  | form :: rest => do
    let _ ← ev.value form scope
    body ev scope tail rest

/-- The values of some forms one after another, of which the last counts. -/
def runAll (ev : Evaluator) (scope : ScopeId) (last : Value) : List Form → EvalM Value
  | [] => pure last
  | form :: rest => do
    let value ← ev.run form scope
    runAll ev scope value rest

end Evaluator

end TowerLisp
