import TowerLisp.Token.Basic

/-!
Forms: the trees that a text is read into. A leaf is a literal or a label; a
compound form came from parentheses or a quoting prefix. Its token tells what
it is, and its parts are the forms inside it.
-/

namespace TowerLisp

structure Form where
  token : Token
  parts : List Form
  compound : Bool
deriving Repr

namespace Form

def tag (f : Form) : Tag :=
  f.token.tag

def isLeaf (f : Form) : Bool :=
  !f.compound && f.parts.isEmpty

/-- The form that a single token is. -/
def leaf (token : Token) : Form :=
  ⟨token, [], false⟩

/-- A compound form with a tag of its own at the place of a token. Its text is
that of the token if they have the tag in common. -/
def compoundAt (tag : Tag) (parts : List Form) (token : Token) : Form :=
  ⟨⟨tag, if token.tag = tag then token.payload else .text tag.label, token.place⟩, parts, true⟩

/-- The text that a leaf holds; something else in its place is a fault. -/
def content : Payload → Except Fault String
  | .text s => .ok s
  | _ => .error (.breakdown .notText)

/-- The word that a compound form starts with, if it has one. -/
def headWord (token : Token) : Except Fault (List String) :=
  match token.tag.keyword? with
  | some word => .ok [word]
  | none =>
    if token.tag = .symbol || token.tag = .operator then do return [← token.payload.written]
    else .ok []

mutual

/-- A form as text, with one blank between its parts. -/
def text : Form → Except Fault String
  | ⟨token, parts, compound⟩ =>
    match token.tag with
    | .empty => .ok "()"
    | .eof => .ok "EOF"
    | .string => do return "\"" ++ (← content token.payload) ++ "\""
    | .character => do return "#\\" ++ (← content token.payload)
    | .dot => do
      match ← textFirst parts with
      | some tail => return ". " ++ tail
      | none => .error (.breakdown .missingPart)
    | _ =>
      if compound then do
        let words ← headWord token
        return "(" ++ " ".intercalate (words ++ (← textAll parts)) ++ ")"
      else token.payload.written

def textFirst : List Form → Except Fault (Option String)
  | [] => .ok none
  | first :: _ => do return some (← text first)

def textAll : List Form → Except Fault (List String)
  | [] => .ok []
  | first :: rest => do
    let head ← text first
    return head :: (← textAll rest)

end

end Form

end TowerLisp
