/-!
Paths of files: an anchor and the names from there on. Empty names and dots are
left out; two dots are kept, because only a file system can tell where they lead.
-/

namespace TowerLisp

/-- Where a path starts: at the working directory, at the root, or at the root
written with two slashes. -/
inductive Anchor where
  | here
  | root
  | doubleRoot
deriving DecidableEq, Repr

structure Path where
  anchor : Anchor
  names : List String
deriving DecidableEq, Repr

namespace Path

/-- The working directory. -/
def here : Path := ⟨.here, []⟩

/-- The names between the slashes of a text. -/
def splitNames (cs : List Char) : List String :=
  ((cs.splitOn '/').map String.ofList).filter fun name => name != "" && name != "."

def anchorOf : List Char → Anchor
  | '/' :: '/' :: '/' :: _ => .root
  | '/' :: '/' :: _ => .doubleRoot
  | '/' :: _ => .root
  | _ => .here

def ofText (text : String) : Path :=
  ⟨anchorOf text.toList, splitNames text.toList⟩

def text (p : Path) : String :=
  let names := "/".intercalate p.names
  match p.anchor with
  | .here => if p.names.isEmpty then "." else names
  | .root => "/" ++ names
  | .doubleRoot => "//" ++ names

def isAbsolute (p : Path) : Bool :=
  p.anchor != .here

/-- A path taken from another one; an absolute path stays as it is. -/
def append (base p : Path) : Path :=
  if p.isAbsolute then p else ⟨base.anchor, base.names ++ p.names⟩

/-- The path without its last name. -/
def parent (p : Path) : Path :=
  ⟨p.anchor, p.names.dropLast⟩

end Path

end TowerLisp
