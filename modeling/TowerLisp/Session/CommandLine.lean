import TowerLisp.Session.Console

/-!
The command line: an optional script and the flag `--no-prelude`. An option may be
cut short as long as it is told from the others. A script is evaluated first, and
the interactive loop follows unless the script failed.
-/

namespace TowerLisp.CommandLine

/-- What an argument is, taken by itself. -/
inductive Argument where
  | word (text : String)
  | help
  | noPrelude
  /-- An option with a value that it does not take. -/
  | overfull
  /-- An option that was cut too short. -/
  | ambiguous
  | unknown
deriving DecidableEq, Repr

/-- The long options. -/
def options : List (String × Argument) :=
  [("--help", .help), ("--no-prelude", .noPrelude)]

/-- The letters after `-h`: each of them has to ask for help as well. -/
def helpLetters (letters : List Char) : Argument :=
  if !letters.isEmpty && letters.all (· = 'h') then .help else .overfull

/-- A text without the line feed that ends it, if one does. -/
def dropLineFeed (cs : List Char) : List Char :=
  if cs.getLast? = some '\n' then cs.dropLast else cs

/-- A negative number, which is a word and not an option. A line feed may follow. -/
def isNegativeNumber (cs : List Char) : Bool :=
  let isDigit (c : Char) := (Text.digitValue? c).isSome
  match dropLineFeed cs with
  | '-' :: rest =>
    match rest.dropWhile isDigit with
    | [] => !rest.isEmpty
    | '.' :: fraction => !fraction.isEmpty && fraction.all isDigit
    | _ => false
  | _ => false

/-- What a text is that starts with a dash but is not an option. -/
def otherArgument (cs : List Char) : Argument :=
  if isNegativeNumber cs || cs.contains ' ' then .word (String.ofList cs) else .unknown

/-- A long option, cut short or with a value after an equals sign. -/
def longOption (cs : List Char) : Argument :=
  let name := cs.takeWhile (· != '=')
  let hasValue := name.length < cs.length
  match options.filter fun option => name.isPrefixOf option.1.toList with
  | [] => otherArgument cs
  | [(_, option)] => if hasValue then .overfull else option
  | _ => .ambiguous

/-- What a text is that stands before any divider. -/
def classify (text : String) : Argument :=
  match text.toList with
  | '-' :: '-' :: rest => longOption ('-' :: '-' :: rest)
  | ['-', 'h'] => .help
  | '-' :: 'h' :: '=' :: letters => helpLetters letters
  | '-' :: 'h' :: letters => helpLetters letters
  | '-' :: c :: rest => otherArgument ('-' :: c :: rest)
  | _ => .word text

/-- What the arguments ask for. -/
inductive Request where
  | exit (code : Nat)
  | run (script : Option String) (prelude : Prelude)

/-- The arguments that have been taken so far. -/
structure Taken where
  script : Option String
  prelude : Prelude
  /-- An argument was left over. -/
  surplus : Bool
  /-- The last argument was taken as the script. -/
  fresh : Bool

def Taken.none : Taken := ⟨.none, .standard, false, false⟩

/-- The request when all arguments are taken; one that is left over is a misuse. -/
def Taken.request (t : Taken) : Request :=
  if t.surplus then .exit 2 else .run t.script t.prelude

/-- Takes what follows the divider, where everything is a word. The divider itself
is left over if the script was named before, unless just before it. -/
def takeWords (t : Taken) (words : List String) : Request :=
  match t.script, words with
  | .none, [] => t.request
  | .none, [word] => { t with script := some word }.request
  | some _, [] => { t with surplus := t.surplus || !t.fresh }.request
  | _, _ => .exit 2

/-- Takes arguments one after another. Help and an option with a value are acted
on at once, a surplus only at the end. -/
def take (t : Taken) (words : Option (List String)) : List Argument → Request
  | [] => words.elim t.request (takeWords t)
  | .word text :: rest =>
    if t.script.isNone then take { t with script := some text, fresh := true } words rest
    else take { t with surplus := true, fresh := false } words rest
  | .help :: _ => .exit 0
  | .noPrelude :: rest => take { t with prelude := .absent, fresh := false } words rest
  | .overfull :: _ => .exit 2
  | .ambiguous :: _ => .exit 2
  | .unknown :: rest => take { t with surplus := true, fresh := false } words rest

/-- What the arguments ask for. An option that was cut too short is a misuse,
whatever else is asked for. -/
def parse (arguments : List String) : Request :=
  let classified := (arguments.takeWhile (· != "--")).map classify
  let words :=
    match arguments.dropWhile (· != "--") with
    | [] => none
    | _ :: words => some words
  if classified.contains .ambiguous then .exit 2 else take .none words classified

/-- How a run ends. -/
structure Outcome where
  code : Nat
  errors : String

/-- Evaluates a script. -/
def runScript (name : String) : EvalM Unit := do
  let _ ← Session.evalFile name (.scriptNotFound name)

/-- The report of a fault, unless it is one that ends the program. -/
def reported (fault : Fault) : EvalM (Option String) :=
  match fault.report? with
  | some message => pure (some message)
  | none => throw fault

/-- Starts a session and evaluates the script if there is one. A fault of the script
is answered. -/
def prepare (script : Option String) (prelude : Prelude) : EvalM (Option String) := do
  Session.start prelude
  match script.filter (· != "") with
  | none => return none
  | some name => tryCatch (do runScript name; return none) reported

/-- Starts a session, evaluates the script if there is one, and runs the loop. A
fault of the script is reported to the error stream and ends the run. -/
def run (script : Option String) (prelude : Prelude) : EvalM Outcome := do
  match ← prepare script prelude with
  | some message => return ⟨1, Console.report message⟩
  | none =>
    Console.run
    return ⟨0, ""⟩

/-- What is written if the arguments do not ask for a run. -/
def usage : String := "usage: microlisp [-h] [--no-prelude] [path]\n"

end TowerLisp.CommandLine
