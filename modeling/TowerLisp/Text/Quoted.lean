import TowerLisp.Token.Scan

/-!
Strings between quotes, and texts with escapes. Printing a string escapes its
quotes, backslashes, line ends and tabs; decoding an escaped text undoes that
and knows a few escapes more.
-/

namespace TowerLisp.Text

/-- A character as it stands inside a printed string. -/
def escapeChar : Char → List Char
  | '"' => ['\\', '"']
  | '\\' => ['\\', '\\']
  | '\n' => ['\\', 'n']
  | '\t' => ['\\', 't']
  | '\r' => ['\\', 'r']
  | c => [c]

def escape (cs : List Char) : List Char :=
  cs.flatMap escapeChar

/-- A printed string. -/
def quoted (cs : List Char) : List Char :=
  '"' :: escape cs ++ ['"']

/-- The character that a letter after a backslash stands for; other characters
stand for themselves. -/
def unescapeChar : Char → Char
  | 'n' => '\n'
  | 't' => '\t'
  | 'r' => '\r'
  | 'b' => '\x08'
  | 'f' => '\x0c'
  | c => c

/-- Decodes escapes. A backslash at the end stands for itself. -/
def unescape : List Char → List Char
  | '\\' :: 'u' :: a :: b :: c :: d :: rest =>
    match hexChar? a b c d with
    | some char => char :: unescape rest
    | none => 'u' :: unescape (a :: b :: c :: d :: rest)
  | '\\' :: '0' :: '3' :: '3' :: rest => '\x1b' :: unescape rest
  | '\\' :: c :: rest => unescapeChar c :: unescape rest
  | c :: rest => c :: unescape rest
  | [] => []

end TowerLisp.Text
