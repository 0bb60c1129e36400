import TowerLisp.Session.CommandLine

/-!
The program on the standard streams and on the files of the system. A session is
pure: when it asks for files or for lines of input they are filled in, and the step
that asked for them is done again from where it started. What a step writes is
written when it has all that it asked for.
-/

namespace TowerLisp.Program

/-- What has been filled in so far. -/
structure Supply where
  paths : List Path
  inputEnded : Bool

/-- What is found at a path. Something that cannot be read counts as a directory. -/
def look (p : Path) : IO (Option Entry) := do
  try
    let bytes ← IO.FS.readBinFile p.text
    return some ((String.fromUTF8? bytes).elim (.binary bytes.toList) .text)
  catch
    | .noFileOrDirectory .. => return none
    | _ => return some .directory

/-- Adds what is found at a path to the files. -/
def addFound (files : FileTree) (p : Path) : IO FileTree := do
  match files.locate p with
  | none => return files
  | some l =>
    if (files.find? l).isSome then return files
    match ← look p with
    | some entry => return files.insert l entry
    | none => return files

/-- Adds what is found at a path and at the directories on the way. -/
def addPath (files : FileTree) (p : Path) : IO FileTree :=
  (List.range (p.names.length + 1)).foldlM
    (fun files n => addFound files ⟨p.anchor, p.names.take n⟩) files

/-- Whether something is asked for that can still be filled in. -/
def Supply.lacks (s : Supply) : Demand → Bool
  | .file p => !s.paths.contains p
  | .line => !s.inputEnded

/-- Fills in what is asked for. -/
def fill (w : World) (s : Supply) : Demand → IO (World × Supply)
  | .file p => do
    return ({ w with files := ← addPath w.files p }, { s with paths := p :: s.paths })
  | .line => do
    let line ← (← IO.getStdin).getLine
    return ({ w with input := w.input ++ line.toList }, { s with inputEnded := line.isEmpty })

/-- Puts an entry in its place on the system. -/
def store (l : Location) : Entry → IO Unit
  | .directory => IO.FS.createDirAll l.path.text
  | .text content => IO.FS.writeFile l.path.text content
  | .binary bytes => IO.FS.writeBinFile l.path.text ⟨bytes.toArray⟩

/-- Writes what a step has written: the changes to the files, and the output. -/
def settle (before after : World) : IO Unit := do
  for (l, entry) in after.files.entries do
    if before.files.find? l != some entry then store l entry
  IO.print after.output
  (← IO.getStdout).flush

/-- Does a step of a session. -/
partial def perform {α : Type} (action : EvalM α) (w : World) (s : Supply) :
    IO (Except Fault α × World × Supply) := do
  let (result, after) :=
    match action.run { w with output := "", demands := [] } with
    | .ok a after => (Except.ok a, after)
    | .error fault after => (Except.error fault, after)
  match after.demands.find? s.lacks with
  | some demand =>
    let (w, s) ← fill w s demand
    perform action w s
  | none =>
    settle w after
    return (result, after, s)

/-- Ends the program after a fault that no session reports. -/
def breakOff (fault : Fault) : IO UInt32 := do
  IO.eprintln (fault.message.getD "The program broke down.")
  return 1

/-- The interactive loop. -/
partial def converse (w : World) (s : Supply) : IO UInt32 := do
  IO.print Console.prompt
  (← IO.getStdout).flush
  let line ← (← IO.getStdin).getLine
  if line.isEmpty then
    IO.print "\n"
    return 0
  match ← perform (Console.handleLine line.toList) w s with
  | (.ok true, w, s) => converse w s
  | (.ok false, _, _) => return 0
  | (.error fault, _, _) => breakOff fault

/-- The settings that the environment gives. -/
def settings : IO Settings := do
  let names := ["MICROLISP_LOAD_PATH", "MICROLISP_PRELUDE_PATH", "MICROLISP_LOG_LEVEL",
    "MICROLISP_RECURSION_LIMIT"]
  let found ← names.filterMapM fun name => do
    return (← IO.getEnv name).map (name, ·)
  return ⟨found⟩

/-- Does what the arguments ask for. -/
def run : CommandLine.Request → IO UInt32
  | .exit code => do
    IO.print CommandLine.usage
    return code.toUInt32
  | .run script prelude => do
    let w := Session.initial .empty (← settings) []
    match ← perform (CommandLine.prepare script prelude) w ⟨[], false⟩ with
    | (.ok none, w, s) => converse w s
    | (.ok (some message), _, _) =>
      IO.eprint (Console.report message)
      return 1
    | (.error fault, _, _) => breakOff fault

end TowerLisp.Program

def main (arguments : List String) : IO UInt32 :=
  TowerLisp.Program.run (TowerLisp.CommandLine.parse arguments)
