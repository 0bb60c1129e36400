import TowerLisp.File.Tree
import TowerLisp.Text.Numeral

/-!
Settings from environment entries: where source files and the prelude are
looked for, and two numbers.
-/

namespace TowerLisp

/-- Environment entries with their values. -/
structure Settings where
  entries : List (String × String)

namespace Settings

/-- The value of a variable; one that is empty counts as not set. -/
def get? (s : Settings) (name : String) : Option String :=
  (s.entries.lookup name).filter (· != "")

/-- The paths of a list that colons divide. Blanks around a path and empty paths
are left out. -/
def splitPaths (text : String) : List Path :=
  let parts := (text.toList.splitOn ':').map Text.trim
  (parts.filter (!·.isEmpty)).map fun part => Path.ofText (String.ofList part)

/-- The paths that a variable lists, or else the default ones. -/
def paths (s : Settings) (name : String) (defaults : List Path) : List Path :=
  (s.get? name).elim defaults splitPaths

/-- The directories where source files are looked for. -/
def loadRoots (s : Settings) : List Path :=
  s.paths "MICROLISP_LOAD_PATH" [.here]

/-- The name of the file that holds the prelude. -/
def preludeName : Path := ⟨.here, ["core.mlisp"]⟩

/-- The directory of the prelude, or `none` for the one that comes with the
language. A path to a file stands for its directory. -/
def preludeRoot (s : Settings) (files : FileTree) : Except Fault (Option Path) :=
  match s.get? "MICROLISP_PRELUDE_PATH" with
  | none => .ok none
  | some text =>
    match splitPaths text with
    | [] => .error (.breakdown .noPath)
    | first :: _ => do return some (if ← files.isDirectory first then first else first.parent)

/-- The file of the prelude in a directory, if it is there. -/
def preludeFile? (files : FileTree) (root : Path) : Except Fault (Option Path) :=
  files.firstFile [root.append preludeName]

/-- The paths that decide where the prelude is. -/
def preludeCandidates (s : Settings) : List Path :=
  match (s.get? "MICROLISP_PRELUDE_PATH").elim [] splitPaths with
  | [] => []
  | first :: _ => [first, first.append preludeName, first.parent.append preludeName]

/-- Where a source file may be: as it is named, or, unless that is an absolute
path, in one of the directories for source files. -/
def sourceCandidates (s : Settings) (name : String) : List Path :=
  let p := Path.ofText name
  if p.isAbsolute then [p] else p :: s.loadRoots.map (·.append p)

/-- A source file: the first place where there is a file. -/
def sourceFile? (s : Settings) (files : FileTree) (name : String) : Except Fault (Option Path) :=
  files.firstFile (s.sourceCandidates name)

/-- Letters in upper case. Of the letters beyond ASCII, only those matter whose
upper case is an ASCII letter. -/
def upperChar (c : Char) : Char :=
  if c = 'ı' then 'I' else if c = 'ſ' then 'S' else c.toUpper

/-- The level below which messages are not logged. -/
def logLevel (s : Settings) : Nat :=
  match String.ofList (((s.get? "MICROLISP_LOG_LEVEL").getD "").toList.map upperChar) with
  | "NOTSET" => 0
  | "DEBUG" => 10
  | "INFO" => 20
  | "ERROR" => 40
  | "CRITICAL" => 50
  | "FATAL" => 50
  | _ => 30

def defaultRecursionLimit : Int := 10000

/-- The limit on nested evaluation, or the default if the variable does not hold
an integer. -/
def recursionLimit (s : Settings) : Int :=
  ((s.get? "MICROLISP_RECURSION_LIMIT").bind (Text.integer? ·.toList)).getD defaultRecursionLimit

/-- How deep evaluation, source text and printed values may nest. A level counts as
two of the units in which the limit is set, and a limit below the default is not
heeded. -/
def depthLimit (s : Settings) : Nat :=
  (max defaultRecursionLimit s.recursionLimit).toNat / 2

end Settings

end TowerLisp
