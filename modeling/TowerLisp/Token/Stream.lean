import TowerLisp.Token.Scan

/-!
The tokens of a whole text, in order. They end with the end of the text, or with
the first fault in it, which counts only for a reader that gets there.
-/

namespace TowerLisp

inductive Tokens where
  | done (eof : Token)
  | broken (fault : Fault)
  | more (token : Token) (rest : Tokens)
deriving DecidableEq, Repr

namespace Tokens

def toList : Tokens → List Token
  | more token rest => token :: rest.toList
  | _ => []

def length : Tokens → Nat
  | more _ rest => rest.length + 1
  | _ => 0

/-- What follows the last token: the token for the end, or a fault. -/
def ending : Tokens → Except Fault Token
  | done eof => .ok eof
  | broken fault => .error fault
  | more _ rest => rest.ending

/-- Puts tokens, last one first, in front of others. -/
def prepend (reversed : List Token) (rest : Tokens) : Tokens :=
  reversed.foldl (fun rest token => more token rest) rest

/-- The tokens ahead of a cursor, at most `fuel` of them, after those in `reversed`. -/
def scanLoop : (fuel : Nat) → Cursor → (reversed : List Token) → Tokens
  | 0, _, reversed => prepend reversed (broken .tooDeep)
  | fuel + 1, c, reversed =>
    match c.scan with
    | (.error fault, _) => prepend reversed (broken fault)
    | (.ok token, after) =>
      if token.tag = .eof then prepend reversed (done token)
      else scanLoop fuel after (token :: reversed)

/-- The tokens ahead of a cursor. Each of them takes up one character at least. -/
def ofCursor (c : Cursor) : Tokens :=
  scanLoop (c.ahead.length + 1) c []

/-- The tokens of a text. -/
def ofSource (source : List Char) : Tokens :=
  ofCursor (.start source)

/-- Looks for a token that stands deeper than `limit`, after the tokens in `reversed`,
which leave `opened` parentheses open and end with `quotes` quoting prefixes. The
tokens break off there; `whole` is the answer if there is none. -/
def withinLoop (limit : Nat) (whole : Tokens) :
    (opened quotes : Nat) → (reversed : List Token) → Tokens → Tokens
  | opened, quotes, reversed, more token rest =>
    let opened :=
      if token.tag = .lparen then opened + 1
      else if token.tag = .rparen then opened - 1
      else opened
    let quotes := if token.isPrefix then quotes + 1 else 0
    if limit < opened + quotes then prepend reversed (broken .tooDeep)
    else withinLoop limit whole opened quotes (token :: reversed) rest
  | _, _, _, _ => whole

/-- The tokens up to the first one that stands deeper than `limit`. -/
def within (limit : Nat) (tokens : Tokens) : Tokens :=
  withinLoop limit tokens 0 0 [] tokens

end Tokens

end TowerLisp
