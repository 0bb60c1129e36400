import TowerLisp.Eval.Step
import TowerLisp.Session.Prelude

/-!
A session: one top level with the procedures of the language and the prelude, to
which source text is fed form by form. A form takes effect before the next one is
looked at, so what stands before a fault in a text stays done.
-/

namespace TowerLisp.Session

/-- The scope of the top level. -/
def top : ScopeId := 0

/-- What the top level binds before the prelude. -/
def givenBindings : Bindings :=
  Primitive.all.map (fun p => (p.name, .primitive p)) ++
    [("else", .trueSymbol), ("#t", .trueSymbol), ("#f", .falseSymbol)]

/-- The store with the top level alone. -/
def givenStore : Store :=
  ⟨#[⟨true, givenBindings⟩], #[[0]], #[]⟩

/-- The world at the start of a session. -/
def initial (files : FileTree) (settings : Settings) (input : List Char) : World where
  store := givenStore
  files := files
  settings := settings
  output := ""
  input := input
  nextMark := 1
  demands := []

/-- The longest chain of tail calls. -/
def chainLimit : Nat := 1000000000000000

/-- The largest limit on nested evaluation that can be set. -/
def largestLimit : Int := 2147483647

/-- The evaluator under the limits of the settings. -/
def currentEvaluator : EvalM Evaluator := do
  return evaluator chainLimit (← get).settings.depthLimit

/-- Evaluates the forms of a text one after another and gives the last value, or
the empty list if there is no form. -/
def evalText (source : List Char) : EvalM Value := do
  let ev ← currentEvaluator
  let (forms, fault?) := Reader.readFormsWithin (← get).settings.depthLimit source
  let value ← ev.runAll top .nil forms
  match fault? with
  | none => return value
  | some fault => throw fault

/-- Checks the limit that is set and evaluates the prelude. -/
def start (prelude : Prelude) : EvalM Unit := do
  let w ← get
  if w.settings.recursionLimit > largestLimit then throw (.breakdown .tooLarge)
  EvalM.demandFiles w.settings.preludeCandidates
  let _ ← evalText (← EvalM.lift (prelude.text w.settings w.files))

/-- Evaluates a source file, whose absence is the given fault, and gives its path. -/
def evalFile (name : String) (absence : Fault) : EvalM Path := do
  match ← Builtin.findSource name with
  | none => throw absence
  | some p =>
    let _ ← evalText (← Builtin.sourceText p)
    return p

/-- Evaluates a source file into the session. -/
def loadFile (name : String) : EvalM Path :=
  evalFile name (.sourceNotFound name)

/-- Whether the top level binds a name. -/
def isBound (name : String) : EvalM Bool := do
  return ((← get).store.lookup? top name).isSome

end TowerLisp.Session
