import TowerLisp.Session.Basic

/-!
The interactive loop. A line is a command that starts with a colon or source text,
whose value is printed. Faults of the language are reported in the output, and
the loop goes on.
-/

namespace TowerLisp.Console

/-- What is written before a line is read. -/
def prompt : String := ">>> "

/-- A report of a fault, in red. -/
def report (message : String) : String :=
  "\x1b[91mError: " ++ message ++ "\x1b[0m\n"

/-- Reports a fault, unless it is one that ends the session. -/
def reportFault (fault : Fault) : EvalM Unit :=
  match fault.report? with
  | some message => EvalM.write (report message)
  | none => throw fault

/-- The command that ends the loop. -/
def exitCommand : List Char := ":exit".toList

/-- The command that evaluates a file. -/
def loadCommand : List Char := ":load".toList

/-- Carries out a line that is neither blank nor the command to exit. -/
def respond (line : List Char) : EvalM Unit := do
  if loadCommand.isPrefixOf line then
    let name := Text.trim (line.drop loadCommand.length)
    let _ ← Session.loadFile (String.ofList name)
  else
    let value ← Session.evalText line
    EvalM.write ((← EvalM.printed value) ++ "\n")

/-- Carries out a line of input and answers whether the loop goes on. -/
def handleLine (line : List Char) : EvalM Bool := do
  let line := Text.trim line
  if line = exitCommand then return false
  if !line.isEmpty then tryCatch (respond line) reportFault
  return true

/-- Reads and carries out lines until the input ends, at most `fuel` of them. -/
def loop : (fuel : Nat) → EvalM Unit
  | 0 => pure ()
  | fuel + 1 => do
    EvalM.write prompt
    let line ← Builtin.takeInputLine
    if line.isEmpty then EvalM.write "\n"
    else if ← handleLine line then loop fuel

/-- Reads and carries out lines until the input ends. Each of them takes a
character at least. -/
def run : EvalM Unit := do
  loop ((← get).input.length + 1)

end TowerLisp.Console
