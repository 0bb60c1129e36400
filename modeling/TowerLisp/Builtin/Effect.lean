import TowerLisp.Builtin.Pure
import TowerLisp.Eval.World
import TowerLisp.Form.Reader

/-!
The procedures that write, read and evaluate. What goes wrong with a file is
answered by a value and not by a fault.
-/

namespace TowerLisp.Builtin

open EvalM (lift withStore write fork)
open Value (ofBool)

/-- The answer of a procedure whose result does not matter. -/
def emptyAnswer : Value := .string ""

/-- What reading a file answers if it cannot be read. -/
def readFailed : Value := .string "IO failed"

/-- What reading a file answers if what it is given is no file name. -/
def readUnknown : Value := .string "Error unknown"

def print (v : Value) : EvalM Value := do
  write ((← EvalM.display v) ++ "\n")
  return emptyAnswer

def printf (v : Value) : EvalM Value := do
  let text ← EvalM.display v
  write (String.ofList (Text.unescape text.toList))
  return emptyAnswer

/-- All forms of a text that nest within the limit. -/
def readAll (source : List Char) : EvalM (List Form) := do
  lift (Reader.readAllWithin (← get).settings.depthLimit source)

/-- Evaluates all forms of a text, which is read as a whole first. -/
def evalText (ev : Evaluator) (source : List Char) (scope : ScopeId) : EvalM Value := do
  ev.runAll scope .nil (← readAll source)

def eval (ev : Evaluator) (scope : ScopeId) (v : Value) : EvalM Value := do
  let scope ← fork scope
  let text ← EvalM.display v
  evalText ev text.toList scope

/-- Takes the next line of the input; it is empty if the input has ended. -/
def takeInputLine : EvalM (List Char) := do
  if (← get).input.isEmpty then EvalM.demand .line
  modifyGet fun w =>
    let (line, rest) := Text.takeLine w.input
    (line, { w with input := rest })

/-- Reads a line of the input and evaluates it. -/
def read (ev : Evaluator) (scope : ScopeId) : EvalM Value := do
  let scope ← fork scope
  let line ← takeInputLine
  evalText ev line scope

/-- The path that a value names, if it is a path or a text that is not empty. -/
def path? : Value → Option Path
  | .path p => some p
  | v => (v.text?.filter (· != "")).map Path.ofText

def asPath (procedure : String) (v : Value) : EvalM Path :=
  match path? v with
  | some p => do
    EvalM.demand (.file p)
    return p
  | none => withStore fun store => v.mistyped store (.fileName procedure)

/-- The lines of a file, or `none` if it cannot be read. -/
def fileLines? (p : Path) : EvalM (Option (List (List Char))) := do
  EvalM.demand (.file p)
  let content ← lift ((← get).files.readText p)
  return content.map Text.lines

/-- The text of a file, with a line feed after each line. -/
def readFromFile (v : Value) : EvalM Value :=
  match path? v with
  | none => pure readUnknown
  | some p => do
    match ← fileLines? p with
    | some lines => return .string (String.ofList (Text.unlines lines))
    | none => return readFailed

/-- The lines of a file; none if it cannot be read. -/
def readLines (v : Value) : EvalM Value :=
  match path? v with
  | none => pure .nil
  | some p => do
    match ← fileLines? p with
    | some lines => return .list (lines.map fun line => .string (String.ofList line))
    | none => return .nil

/-- Makes a change to the files and answers whether it succeeded. -/
def changeFiles (change : FileTree → Except Fault (Option FileTree)) : EvalM Bool := do
  match ← lift (change (← get).files) with
  | some files =>
    modify fun w => { w with files }
    return true
  | none => return false

/-- Makes a file if there is none, and gives its path. -/
def makeFile (v : Value) : EvalM Value := do
  let p ← asPath "make-file" v
  if ← changeFiles (·.touch p) then return .path p else return .falseSymbol

def makeDirectory (v : Value) : EvalM Value := do
  let p ← asPath "make-directory" v
  let files := (← get).files
  match ← lift (files.lookUp p) with
  | some entry => return ofBool (entry = .directory)
  | none =>
    let (files, made) ← lift (files.makeDirectory p)
    modify fun w => { w with files }
    return ofBool made

def writeToFile (target v : Value) : EvalM Value := do
  let p ← asPath "write-to-file" target
  let text ← EvalM.display v
  return ofBool (← changeFiles (·.writeText p text))

/-- Writes the lines of a list. The file is there, with the lines before it, even
if one of them has no text. -/
def writeLines (target v : Value) : EvalM Value := do
  let p ← asPath "write-lines" target
  match v.list? with
  | none => withStore fun store => v.mistyped store .lines
  | some rows =>
    if ← changeFiles (·.writeText p "") then writeRows p "" rows else return .falseSymbol
where
  writeRows (p : Path) (written : String) : List Value → EvalM Value
    | [] => do return ofBool (← changeFiles (·.writeText p written))
    | row :: rest => do
      let w ← get
      match row.displayWithin w.settings.depthLimit w.store with
      | .ok text => writeRows p (written ++ text ++ "\n") rest
      | .error fault =>
        let _ ← changeFiles (·.writeText p written)
        throw fault

/-- The ending of the names of source files. -/
def sourceSuffix : String := ".mlisp"

/-- The file name that a value names. -/
def sourceName (v : Value) : EvalM String := do
  let name ←
    match v with
    | .symbol name => pure name
    | v => EvalM.display v
  return if name.endsWith sourceSuffix then name else name ++ sourceSuffix

/-- Evaluates forms one after another, each in a new scope on the root frame. -/
def evaluateAtRoot (ev : Evaluator) (root : FrameId) : List Form → EvalM Unit
  | [] => pure ()
  | form :: rest => do
    let scope ← EvalM.updateStore (·.addScope [root])
    let _ ← ev.run form scope
    evaluateAtRoot ev root rest

/-- The path of a source file, if there is one of that name. -/
def findSource (name : String) : EvalM (Option Path) := do
  let w ← get
  EvalM.demandFiles (w.settings.sourceCandidates name)
  lift (w.settings.sourceFile? w.files name)

/-- The text of a source file. -/
def sourceText (p : Path) : EvalM (List Char) := do
  return (← lift ((← get).files.readText p)).getD []

/-- Evaluates a source file at top level. -/
def importSource (ev : Evaluator) (scope : ScopeId) (v : Value) : EvalM Value := do
  let name ← sourceName v
  match ← findSource name with
  | none => throw (.importNotFound name)
  | some p =>
    let forms ← readAll (← sourceText p)
    match (← get).store.root? scope, forms with
    | some root, forms => evaluateAtRoot ev root forms
    | none, [] => pure ()
    | none, _ :: _ => throw .noRoot
    return .trueSymbol

/-- Applies a procedure to the elements of a list. -/
def apply (ev : Evaluator) (scope : ScopeId) (procedure arguments : Value) : EvalM Value :=
  match arguments.list? with
  | some items => do ev.finish (← ev.apply procedure items scope false)
  | none => throw (.mistyped .applyArguments)

/-- Runs a procedure with effects. -/
def perform (ev : Evaluator) (scope : ScopeId) : Primitive → List Value → EvalM Value
  | .apply, [procedure, arguments] => apply ev scope procedure arguments
  | .eval, [v] => eval ev scope v
  | .read, [] => read ev scope
  | .importSource, [v] => importSource ev scope v
  | .print, [v] => print v
  | .printf, [v] => printf v
  | .readFromFile, [v] => readFromFile v
  | .readLines, [v] => readLines v
  | .makeFile, [v] => makeFile v
  | .makeDirectory, [v] => makeDirectory v
  | .writeToFile, [target, v] => writeToFile target v
  | .writeLines, [target, v] => writeLines target v
  | p, args => throw (.arity (.count p.name (p.arity?.getD 0) args.length))

/-- Runs a procedure of the language after it has checked the number of its
arguments. -/
def run (ev : Evaluator) (scope : ScopeId) (p : Primitive) (args : List Value) :
    EvalM Value := do
  match p.arity? with
  | some n => if args.length ≠ n then throw (.arity (.count p.name n args.length))
  | none => pure ()
  match compute? (← get).store p args with
  | some result => do EvalM.mark (← lift result)
  | none => perform ev scope p args

end TowerLisp.Builtin
