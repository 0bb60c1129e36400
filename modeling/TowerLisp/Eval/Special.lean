import TowerLisp.Eval.Quasi

/-!
The special forms. Each takes the parts of its form, the scope and whether the
form is in tail position.
-/

namespace TowerLisp.Evaluator

open EvalM (lift newFrame updateStore modifyStore nameValue)

def malformed {α : Type} (issue : SyntaxIssue) : EvalM α :=
  throw (.malformed issue none)

/-- The name that a leaf holds. -/
def nameOf (form : Form) : Except Fault String :=
  Form.content form.token.payload

def quoteForm (parts : List Form) : EvalM Step :=
  match parts with
  | [quoted] => do return .done (← lift quoted.datum)
  | _ => malformed .quoteForm

def quasiquoteForm (ev : Evaluator) (parts : List Form) (scope : ScopeId) : EvalM Step :=
  match parts with
  | [template] => do return .done (← ev.quasi scope 1 template)
  | _ => malformed .quasiquoteForm

/-- A new procedure. -/
def newClosure (closure : Closure) : EvalM ClosureId :=
  updateStore (·.addClosure closure)

def lambdaForm (parts : List Form) (scope : ScopeId) : EvalM Step :=
  match parts with
  | params :: first :: rest => do
    if params.tag = .params then
      let formals ← lift (params.parts.mapM nameOf)
      return .done (.closure (← newClosure ⟨formals, first :: rest, scope, none⟩))
    else throw (.malformed .lambdaFormParameters params.token.place)
  | _ => malformed .lambdaForm

/-- A definition. It gives the symbol that it binds. -/
def defineForm (ev : Evaluator) (parts : List Form) (scope : ScopeId) : EvalM Step :=
  match parts with
  | [target, form] =>
    if target.tag = .symbol then do
      let name ← lift (nameOf target)
      let value ← ev.value form scope
      nameValue name value
      modifyStore (·.define scope name value)
      return .done (.symbol name)
    else malformed .defineForm
  | _ => malformed .defineForm

/-- The clauses of a cond: the body of the first whose test is true. A clause
without a body gives the value of its test. -/
def clauses (ev : Evaluator) (scope : ScopeId) (tail : Bool) : List Form → EvalM Step
  | [] => throw .noClauseMatched
  | clause :: rest =>
    match clause.parts with
    | [] => throw (.breakdown .wrongParts)
    | test :: forms => do
      let value ← ev.value test scope
      if value.isTrue then
        if forms.isEmpty then return .done value else ev.body scope tail forms
      else clauses ev scope tail rest

def condForm (ev : Evaluator) (parts : List Form) (scope : ScopeId) (tail : Bool) : EvalM Step :=
  match parts with
  | [] => throw .noClauses
  | _ => ev.clauses scope tail parts

/-- The name and the form of one binding. -/
def bindingOf (form : Form) : Except Fault (String × Form) :=
  match form.parts with
  | [name, value] => do return (← nameOf name, value)
  | _ => .error (.breakdown .wrongParts)

/-- The names and forms of a list of bindings. -/
def bindingsOf (form : Form) : Except Fault (List (String × Form)) :=
  if form.tag = .bindings then form.parts.mapM bindingOf
  else .error (.malformed .letForm form.token.place)

/-- Evaluates bindings from left to right in one scope. -/
def bindingValues (ev : Evaluator) (scope : ScopeId) :
    List (String × Form) → EvalM (List (String × Value))
  | [] => pure []
  | (name, form) :: rest => do
    let value ← ev.value form scope
    return (name, value) :: (← bindingValues ev scope rest)

/-- Applies a procedure: a frame for its parameters goes in front of the scope it
was made in. In tail position the last form of the body is left to the caller. -/
def applyClosure (ev : Evaluator) (closure : Closure) (arguments : List Value) (tail : Bool) :
    EvalM Step := do
  if arguments.length ≠ closure.formals.length then
    let label := (closure.name.filter (· != "")).getD "procedure"
    throw (.arity (.count label closure.formals.length arguments.length))
  let scope ← newFrame closure.scope (.ofPairs (closure.formals.zip arguments))
  match closure.body.getLast? with
  | none => throw (.breakdown .wrongParts)
  | some last =>
    ev.evaluateEach scope closure.body.dropLast
    if tail then return .call last scope else return .done (← ev.run last scope)

/-- A let with a name: a procedure of that name over the bindings, called with
their values. -/
def namedLet (ev : Evaluator) (name : Form) (rest : List Form) (scope : ScopeId) (tail : Bool) :
    EvalM Step := do
  let label ← lift (nameOf name)
  match rest with
  | [] => missingPart
  | list :: body =>
    let pairs ← lift (bindingsOf list)
    let arguments ← ev.bindingValues scope pairs
    let (inner, frame) ← updateStore fun s =>
      let (inner, frame, s) := s.withOpenFrame scope
      ((inner, frame), s)
    let closure : Closure := ⟨pairs.map (·.1), body, inner, some label⟩
    let id ← newClosure closure
    modifyStore (·.bindIn frame label (.closure id))
    ev.applyClosure closure (arguments.map (·.2)) tail

/-- All values are found in the outer scope, then bound together. -/
def letAllForm (ev : Evaluator) (parts : List Form) (scope : ScopeId) (tail : Bool) :
    EvalM Step :=
  match parts with
  | [] => missingPart
  | first :: rest =>
    if first.tag = .symbol then ev.namedLet first rest scope tail
    else do
      let pairs ← lift (bindingsOf first)
      let bindings ← ev.bindingValues scope pairs
      let inner ← newFrame scope (.ofPairs bindings)
      ev.body inner tail rest

/-- Binds one after another, each in a scope of its own. -/
def bindEach (ev : Evaluator) (scope : ScopeId) : List (String × Form) → EvalM ScopeId
  | [] => pure scope
  | (name, form) :: rest => do
    let value ← ev.value form scope
    let inner ← newFrame scope [(name, value)]
    bindEach ev inner rest

/-- Each value sees the bindings before it. -/
def letEachForm (ev : Evaluator) (parts : List Form) (scope : ScopeId) (tail : Bool) :
    EvalM Step :=
  match parts with
  | [] => missingPart
  | first :: rest => do
    let pairs ← lift (bindingsOf first)
    let inner ← ev.bindEach scope pairs
    ev.body inner tail rest

/-- Fills a frame with bindings whose values see that frame. -/
def bindRec (ev : Evaluator) (scope : ScopeId) (frame : FrameId) :
    List (String × Form) → EvalM Unit
  | [] => pure ()
  | (name, form) :: rest => do
    let value ← ev.value form scope
    nameValue name value
    modifyStore (·.bindIn frame name value)
    bindRec ev scope frame rest

/-- All values see all bindings. -/
def letRecForm (ev : Evaluator) (parts : List Form) (scope : ScopeId) (tail : Bool) :
    EvalM Step := do
  let (inner, frame) ← updateStore fun s =>
    let (inner, frame, s) := s.withOpenFrame scope
    ((inner, frame), s)
  match parts with
  | [] => missingPart
  | first :: rest =>
    let pairs ← lift (bindingsOf first)
    ev.bindRec inner frame pairs
    ev.body inner tail rest

end TowerLisp.Evaluator
