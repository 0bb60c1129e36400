import TowerLisp.Text.Digit
import TowerLisp.Text.Printable
import TowerLisp.Token.Basic
import TowerLisp.Token.Cursor

/-!
Splitting a text into tokens. `Cursor.scan` reads the token at a cursor and moves
past it, also if the token is faulty. Blanks and comments between tokens are
skipped; a comment runs from a semicolon to the end of its line.
-/

namespace TowerLisp

open Text (isBlank isDigit isLetter isWord)

/-- Characters that are an operator when they stand alone. -/
def isOperatorChar (c : Char) : Bool :=
  "+-*/%^=<>!:".toList.contains c

/-- Characters other than letters and digits that a label may hold. -/
def isLabelMark (c : Char) : Bool :=
  "-+*%!?/|^&$\\:[]_=.<>".toList.contains c

/-- Characters other than digits that a number may hold after its first one. -/
def isNumberMark (c : Char) : Bool :=
  "ijk-+/.".toList.contains c

def isNumberChar (c : Char) : Bool :=
  isDigit c || isNumberMark c

def isLabelChar (c : Char) : Bool :=
  isWord c || isLabelMark c

/-- Characters that end an operator or a dot. -/
def isDelimiter (c : Char) : Bool :=
  c == Cursor.endMark || isBlank c || "()'\x60,\";".toList.contains c

/-- The value of a hexadecimal digit. -/
def hexValue? (c : Char) : Option Nat :=
  if '0' ≤ c && c ≤ '9' then some (c.toNat - '0'.toNat)
  else if 'a' ≤ c && c ≤ 'f' then some (c.toNat - 'a'.toNat + 10)
  else if 'A' ≤ c && c ≤ 'F' then some (c.toNat - 'A'.toNat + 10)
  else none

/-- The character with a code. Texts are sequences of characters here and hold no
surrogates, so the code of a surrogate, which a text of code points would keep by itself,
gives the replacement character. -/
def charOfCode (n : Nat) : Char :=
  if n.isValidChar then Char.ofNat n else '\uFFFD'

/-- The character that four hexadecimal digits name. -/
def hexChar? (a b c d : Char) : Option Char := do
  let a ← hexValue? a
  let b ← hexValue? b
  let c ← hexValue? c
  let d ← hexValue? d
  return charOfCode (((a * 16 + b) * 16 + c) * 16 + d)

/-- The character that an escape letter stands for; other letters stand for
themselves. -/
def escapedChar : Char → Char
  | 'n' => '\n'
  | 't' => '\t'
  | 'r' => '\r'
  | c => c

/-- The body of a string literal, up to the closing quote. -/
structure StringBody where
  text : List Char
  /-- How many characters were read, the closing quote included. -/
  length : Nat
  closed : Bool

/-- Reads the body of a string literal. A backslash before the end mark stands
for itself. -/
def stringBody (text : List Char) (length : Nat) : List Char → StringBody
  | [] => ⟨text.reverse, length, false⟩
  | ['\\'] => ⟨text.reverse, length + 1, false⟩
  | '\\' :: 'u' :: a :: b :: c :: d :: rest =>
    match hexChar? a b c d with
    | some char => stringBody (char :: text) (length + 6) rest
    | none => stringBody ('u' :: text) (length + 2) (a :: b :: c :: d :: rest)
  | '\\' :: c :: rest =>
    stringBody ((if c = Cursor.endMark then '\\' else escapedChar c) :: text) (length + 2) rest
  | c :: rest =>
    if c = '"' then ⟨text.reverse, length + 1, true⟩
    else if c = Cursor.endMark then ⟨text.reverse, length, false⟩
    else stringBody (c :: text) (length + 1) rest

/-- The length of the blanks and comments that a text starts with, added to `n`. -/
def triviaLength (inComment : Bool) (n : Nat) : List Char → Nat
  | [] => n
  | c :: rest =>
    if inComment then
      if c = Cursor.endMark then n else triviaLength (c != '\n') (n + 1) rest
    else if isBlank c then triviaLength false (n + 1) rest
    else if c = ';' then triviaLength true (n + 1) rest
    else n

/-- The character that a name after a hash and a backslash stands for. -/
def namedChar? : String → Option Char
  | "space" => some ' '
  | "newline" => some '\n'
  | "tab" => some '\t'
  | "return" => some '\r'
  | _ => none

namespace Cursor

/-- Moves past blanks and comments. -/
def skipTrivia (c : Cursor) : Cursor :=
  c.skip (triviaLength false 0 c.ahead)

/-- A token that starts at the cursor. -/
def token (c : Cursor) (tag : Tag) (text : String) : Token :=
  ⟨tag, .text text, some c.place⟩

/-- A fault at the cursor. -/
def fault (c : Cursor) (issue : SyntaxIssue) : Fault :=
  .malformed issue (some c.place)

def scanNumber (c : Cursor) : Token × Cursor :=
  let (rest, after) := c.advance.takeWhile isNumberChar
  (c.token .number (String.ofList (c.current :: rest)), after)

def scanLabel (c : Cursor) : Token × Cursor :=
  let (label, after) := c.takeWhile isLabelChar
  let text := String.ofList label
  (c.token ((Tag.ofKeyword? text).getD .symbol) text, after)

def scanString (c : Cursor) : Except Fault Token × Cursor :=
  let body := stringBody [] 0 c.advance.ahead
  let after := c.advance.skip body.length
  (if body.closed then .ok (c.token .string (String.ofList body.text))
    else .error (c.fault .unterminatedString), after)

/-- A character literal: one character, or a name of letters. -/
def scanCharacter (c : Cursor) : Except Fault Token × Cursor :=
  let first := c.advance.advance
  if first.current = endMark then (.error (c.fault .incompleteCharacter), first)
  else
    let (name, after) :=
      if isLetter first.current then first.takeWhile isLetter
      else ([first.current], first.advance)
    let text := String.ofList name
    if name.length ≤ 1 then (.ok (c.token .character text), after)
    else
      match namedChar? text with
      | some char => (.ok (c.token .character (String.singleton char)), after)
      | none => (.error (c.fault (.unknownCharacterName text)), after)

/-- What starts with a hash: a character or a truth value. -/
def scanHash (c : Cursor) : Except Fault Token × Cursor :=
  if c.next = '\\' then c.scanCharacter
  else
    let (letters, after) := c.advance.takeWhile isLetter
    let text := String.ofList ('#' :: letters)
    if text = "#t" || text = "#f" then (.ok (c.token .boolean text), after)
    else (.error (c.fault (.unknownToken text)), after)

/-- Reads the token at the cursor, which is past blanks and comments. -/
def scanHere (c : Cursor) : Except Fault Token × Cursor :=
  let char := c.current
  let single (tag : Tag) (payload : Payload) : Except Fault Token × Cursor :=
    (.ok ⟨tag, payload, some c.place⟩, c.advance)
  let whole (scanned : Token × Cursor) : Except Fault Token × Cursor :=
    (.ok scanned.1, scanned.2)
  if char = endMark then (.ok (c.token .eof "EOF"), c)
  else if isDigit char || ((char = '+' || char = '-') && isDigit c.next) then whole c.scanNumber
  else if isOperatorChar char && isDelimiter c.next then single .operator (.operator char)
  else if char = '.' && isDelimiter c.next then single .dot (.text ".")
  else if isLetter char || isLabelMark char then whole c.scanLabel
  else if char = '"' then c.scanString
  else if char = '#' then c.scanHash
  else if char = '(' then single .lparen (.text "(")
  else if char = ')' then single .rparen (.text ")")
  else if char = '\x27' then single .quote (.text "'")
  else if char = '\x60' then single .quasiquote (.text "\x60")
  else if char = ',' then
    if c.next = '@' then (.ok (c.token .splice ",@"), c.advance.advance)
    else single .unquote (.text ",")
  else (.error (c.fault (.unexpectedCharacter (Text.shown [char]))), c)

/-- Reads the next token and moves past it. At the end of the text that is the
token `eof`, and the cursor stays. -/
def scan (c : Cursor) : Except Fault Token × Cursor :=
  c.skipTrivia.scanHere

/-- The next token, from a cursor that stays where it is. -/
def peek (c : Cursor) : Except Fault Token :=
  c.scan.1

end Cursor

end TowerLisp
