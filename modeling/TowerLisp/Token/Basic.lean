import TowerLisp.Number.Written

/-!
Tokens. The same tags mark the tokens of a text and the interior nodes that the
reader builds from them, so that a form is told by its tag alone.
-/

namespace TowerLisp

/-- What a token or a form is. -/
inductive Tag where
  -- tokens of a text
  | number
  | string
  | character
  | boolean
  | symbol
  | operator
  | lparen
  | rparen
  | dot
  | lambda
  | define
  | cond
  | letAll
  | letEach
  | letRec
  | sequence
  | quote
  | quasiquote
  | unquote
  | splice
  | eof
  -- forms without a token of their own
  | apply
  | list
  | empty
  | params
  | bindings
  | binding
  | clause
deriving DecidableEq, Repr

namespace Tag

/-- All tags. -/
def all : List Tag :=
  [number, string, character, boolean, symbol, operator, lparen, rparen, dot, lambda, define,
   cond, letAll, letEach, letRec, sequence, quote, quasiquote, unquote, splice, eof, apply, list,
   empty, params, bindings, binding, clause]

def label : Tag → String
  | number => "NUMBER"
  | string => "STRING"
  | character => "CHARACTER"
  | boolean => "BOOLEAN"
  | symbol => "SYMBOL"
  | operator => "OPERATOR"
  | lparen => "LPAREN"
  | rparen => "RPAREN"
  | dot => "DOT"
  | lambda => "LAMBDA"
  | define => "DEFINE"
  | cond => "COND"
  | letAll => "LET"
  | letEach => "LETS"
  | letRec => "LETR"
  | sequence => "DO"
  | quote => "QUOTE"
  | quasiquote => "QUASIQUOTE"
  | unquote => "UNQUOTE"
  | splice => "UNQUOTE_SPLICING"
  | eof => "EOF"
  | apply => "APPLY"
  | list => "LIST"
  | empty => "EMPTY"
  | params => "PARAMS"
  | bindings => "BINDINGS"
  | binding => "BINDING"
  | clause => "CLAUSE"

/-- The keyword that a tag stands for in code. -/
def keyword? : Tag → Option String
  | lambda => some "lambda"
  | define => some "define"
  | cond => some "cond"
  | quote => some "quote"
  | quasiquote => some "quasi-quote"
  | unquote => some "unquote"
  | splice => some "unquote-splicing"
  | sequence => some "do"
  | letAll => some "let"
  | letEach => some "lets"
  | letRec => some "letr"
  | _ => none

/-- The keyword of a tag that has one. It is asked for quoting marks and lets only, which
have one by `keyword?_eq_keyword`. -/
def keyword (tag : Tag) : String :=
  tag.keyword?.getD ""

/-- The tag of a word that is a keyword. Some keywords have two spellings. -/
def ofKeyword? : String → Option Tag
  | "lambda" => some lambda
  | "define" => some define
  | "cond" => some cond
  | "quote" => some quote
  | "quasi-quote" => some quasiquote
  | "quasiquote" => some quasiquote
  | "unquote" => some unquote
  | "unquote-splicing" => some splice
  | "unquote-splice" => some splice
  | "do" => some sequence
  | "let" => some letAll
  | "lets" => some letEach
  | "letr" => some letRec
  | _ => none

/-- Tokens that are a form by themselves. -/
def isAtom : Tag → Bool
  | number | string | character | boolean | symbol | operator => true
  | _ => false

/-- Literals; a form that starts with one is a list. -/
def isLiteral : Tag → Bool
  | number | string | character | boolean => true
  | _ => false

def isQuoting : Tag → Bool
  | quote | quasiquote | unquote | splice => true
  | _ => false

/-- Quoting marks and lets have a keyword. -/
theorem keyword?_eq_keyword {tag : Tag}
    (h : tag.isQuoting = true ∨ tag = letAll ∨ tag = letEach ∨ tag = letRec) :
    tag.keyword? = some tag.keyword := by
  rcases h with h | rfl | rfl | rfl
  · cases tag <;> first | rfl | cases h
  all_goals rfl

end Tag

/-- What a token carries. -/
inductive Payload where
  | none
  | text (content : String)
  | operator (symbol : Char)
  | number (value : Number)
deriving DecidableEq, Repr

/-- The text of what a token carries. -/
def Payload.written : Payload → Except Fault String
  | none => .ok "None"
  | text s => .ok s
  | operator symbol => .ok (String.singleton symbol)
  | number value => value.text

/-- A token, with the place where it starts if it came from a text. -/
structure Token where
  tag : Tag
  payload : Payload
  place : Option Place
deriving DecidableEq, Repr

namespace Token

/-- A token as a message shows it: its label, and in parentheses its text. -/
def shown (t : Token) : Except Fault String :=
  match t.payload with
  | .none => .ok t.tag.label
  | .text "" => .ok t.tag.label
  | payload => do return t.tag.label ++ "(" ++ (← payload.written) ++ ")"

/-- A quoting token that is written as a prefix, not as a keyword. -/
def isPrefix (t : Token) : Bool :=
  t.tag.isQuoting &&
    match t.payload with
    | .text s => s == "'" || s == "\x60" || s == "," || s == ",@"
    | _ => false

end Token

end TowerLisp
