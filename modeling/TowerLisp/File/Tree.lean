import TowerLisp.Fault
import TowerLisp.File.Path

/-!
A tree of files and directories around a working directory. The directories above
it and the root are there but hold nothing else. Operations answer whether they
succeeded; a name with a NUL in it breaks down, and so does reading a file that
is not text. A name may be too long: then nothing can be made there, and the
question what is there breaks down.

In a file a line may also end in a carriage return, alone or before the line feed;
reading a file turns each line end into a line feed.
-/

namespace TowerLisp.Text

/-- Turns every line end into a line feed. -/
def normalizeLineEnds : List Char → List Char
  | '\r' :: '\n' :: rest => '\n' :: normalizeLineEnds rest
  | '\r' :: rest => '\n' :: normalizeLineEnds rest
  | c :: rest => c :: normalizeLineEnds rest
  | [] => []

/-- The lines of a text without their line feeds. A text that ends in a line feed
has no further, empty line. -/
def lines (cs : List Char) : List (List Char) :=
  match cs.splitOn '\n' with
  | [] => []
  | parts => if parts.getLast? = some [] then parts.dropLast else parts

/-- The first line of a text with its line feed, and what follows it. -/
def takeLine : List Char → List Char × List Char
  | [] => ([], [])
  | '\n' :: rest => (['\n'], rest)
  | c :: rest =>
    let (line, after) := takeLine rest
    (c :: line, after)

/-- Lines, each with a line feed at its end. -/
def unlines (lines : List (List Char)) : List Char :=
  lines.flatMap (· ++ ['\n'])

end TowerLisp.Text

namespace TowerLisp

/-- A place in the tree: names below the root, or below the directory a number of
levels above the working directory. -/
inductive Location where
  | above (levels : Nat) (names : List String)
  | rooted (names : List String)
deriving DecidableEq, Repr

inductive Entry where
  | directory
  | text (content : String)
  | binary (bytes : List UInt8)
deriving DecidableEq, Repr

/-- The entries that were made, in order; a place is listed once. -/
structure FileTree where
  entries : List (Location × Entry)

namespace Location

/-- The location inside a directory. -/
def child (name : String) : Location → Location
  | above levels names => above levels (names ++ [name])
  | rooted names => rooted (names ++ [name])

/-- The directory that holds a location. -/
def parent : Location → Location
  | above levels [] => above (levels + 1) []
  | above levels names => above levels names.dropLast
  | rooted names => rooted names.dropLast

/-- A path that leads to a location. -/
def path : Location → Path
  | above levels names => ⟨.here, List.replicate levels ".." ++ names⟩
  | rooted names => ⟨.root, names⟩

/-- Locations that are there from the start. -/
def isGiven : Location → Bool
  | above _ names => names.isEmpty
  | rooted names => names.isEmpty

end Location

namespace FileTree

def empty : FileTree := ⟨[]⟩

def find? (t : FileTree) (l : Location) : Option Entry :=
  if l.isGiven then some .directory
  else (t.entries.find? fun entry => entry.1 = l).map (·.2)

def insertEntry (l : Location) (e : Entry) : List (Location × Entry) → List (Location × Entry)
  | [] => [(l, e)]
  | (key, old) :: rest => if key = l then (key, e) :: rest else (key, old) :: insertEntry l e rest

def insert (t : FileTree) (l : Location) (e : Entry) : FileTree :=
  ⟨insertEntry l e t.entries⟩

/-- Follows names from a directory. Two dots lead to the directory above; every
name but the last has to be a directory that is there. -/
def walk (t : FileTree) (l : Location) : List String → Option Location
  | [] => some l
  | name :: rest =>
    match t.find? l with
    | some .directory => walk t (if name = ".." then l.parent else l.child name) rest
    | _ => none

/-- Where the names of a path start. -/
def startOf (p : Path) : Location :=
  match p.anchor with
  | .here => .above 0 []
  | _ => .rooted []

/-- The location of a path, if the directories on the way are there. -/
def locate (t : FileTree) (p : Path) : Option Location :=
  t.walk (startOf p) p.names

def entry? (t : FileTree) (p : Path) : Option Entry := do
  t.find? (← t.locate p)

def hasNul (p : Path) : Bool :=
  p.names.any fun name => name.toList.contains '\x00'

/-- The number of bytes that a name may have. -/
def longestName : Nat := 255

/-- The number of bytes that the text of a path may have. -/
def longestPath : Nat := 4095

/-- Whether the way along some names meets one that is too long. A way that ends
before it does not. -/
def meetsLongName (t : FileTree) (l : Location) : List String → Bool
  | [] => false
  | name :: rest =>
    match t.find? l with
    | some .directory =>
      longestName < name.utf8ByteSize ||
        meetsLongName t (if name = ".." then l.parent else l.child name) rest
    | _ => false

def isTooLong (t : FileTree) (p : Path) : Bool :=
  longestPath < p.text.utf8ByteSize || t.meetsLongName (startOf p) p.names

/-- What is at a path. A NUL in the path means that there is nothing. -/
def lookUp (t : FileTree) (p : Path) : Except Fault (Option Entry) :=
  if hasNul p then .ok none
  else if t.isTooLong p then .error (.breakdown .longName)
  else .ok (t.entry? p)

def isDirectory (t : FileTree) (p : Path) : Except Fault Bool := do
  return (← t.lookUp p) = some .directory

def isFile (t : FileTree) (p : Path) : Except Fault Bool := do
  match ← t.lookUp p with
  | some (.text _) => return true
  | some (.binary _) => return true
  | _ => return false

/-- The first path at which there is a file. -/
def firstFile (t : FileTree) : List Path → Except Fault (Option Path)
  | [] => .ok none
  | p :: rest => do if ← t.isFile p then return some p else firstFile t rest

/-- Refuses a path with a NUL in it. -/
def checkPath (p : Path) : Except Fault Unit :=
  if hasNul p then .error (.breakdown .unrepresentable) else .ok ()

/-- The text of a file with its line ends normalized, or `none` if there is no
such file. -/
def readText (t : FileTree) (p : Path) : Except Fault (Option (List Char)) := do
  checkPath p
  match t.entry? p with
  | some (.text content) => return some (Text.normalizeLineEnds content.toList)
  | some (.binary _) => .error (.breakdown .undecodable)
  | _ => return none

/-- Puts a file in place, if its directory is there and it is not a directory
itself. -/
def putFile (t : FileTree) (p : Path) (e : Entry) : Option FileTree := do
  if t.isTooLong p then none
  let l ← t.locate p
  match t.find? l with
  | some .directory => none
  | _ => if t.find? l.parent = some .directory then some (t.insert l e) else none

/-- Writes a text to a file, or answers `none` if that is not possible. -/
def writeText (t : FileTree) (p : Path) (content : String) : Except Fault (Option FileTree) := do
  checkPath p
  return t.putFile p (.text content)

/-- Makes an empty file unless there is something at the path. -/
def touch (t : FileTree) (p : Path) : Except Fault (Option FileTree) := do
  checkPath p
  if (t.entry? p).isSome then return some t
  return t.putFile p (.text "")

/-- Makes the directories along some names that are not there yet, as far as that is
possible, and answers whether the last one was made. -/
def makeAlong (t : FileTree) (l : Location) (made : Bool) : List String → FileTree × Bool
  | [] => (t, made)
  | name :: rest =>
    let l := if name = ".." then l.parent else l.child name
    match t.find? l with
    | some .directory => makeAlong t l false rest
    | some _ => (t, false)
    | none =>
      if longestName < name.utf8ByteSize then (t, false)
      else makeAlong (t.insert l .directory) l true rest

/-- Makes a directory and those above it, and answers whether it was made. -/
def makeDirectory (t : FileTree) (p : Path) : Except Fault (FileTree × Bool) := do
  checkPath p
  return t.makeAlong (startOf p) false p.names

/-- The entries below the working directory, each with its path. -/
def listing (t : FileTree) : List (String × Entry) :=
  t.entries.filterMap fun (l, e) =>
    match l with
    | .above 0 names => some ("/".intercalate names, e)
    | _ => none

end FileTree

end TowerLisp
