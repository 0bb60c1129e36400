import TowerLisp.Form.Basic
import TowerLisp.Number.Offered
import TowerLisp.Token.Stream

/-!
Reading forms from tokens. Code and quoted data are read differently: inside a
quote or a quasiquote every list is plain data, except for the unquoted parts at
quasiquote depth one, which are code because they will be evaluated. The first
fault in reading order is the one that is found.

Every step of the mutual recursion lowers `fuel`. A step that reads no token is
followed by one that does, so three steps for each token are enough.
-/

namespace TowerLisp.Reader

def failAt {α : Type} (token : Token) (issue : SyntaxIssue) : Except Fault α :=
  .error (.malformed issue token.place)

/-- A fault at a token that also shows it. -/
def failShowing {α : Type} (token : Token) (issue : String → SyntaxIssue) : Except Fault α := do
  failAt token (issue (← token.shown))

/-- The next token inside the parenthesis `opener`. -/
def next (opener : Token) : Tokens → Except Fault (Token × Tokens)
  | .more token rest => .ok (token, rest)
  | .broken fault => .error fault
  | .done _ => failAt opener .unmatchedParen

/-- The next token after the quoting token `opener`. -/
def nextQuoted (opener : Token) : Tokens → Except Fault (Token × Tokens)
  | .more token rest => .ok (token, rest)
  | .broken fault => .error fault
  | .done _ => failAt opener .quoteAtEnd

/-- The closing parenthesis of what is called `what`. -/
def close (opener : Token) (what : String) (tokens : Tokens) : Except Fault Tokens := do
  let (token, rest) ← next opener tokens
  if token.tag = .rparen then return rest
  else failShowing token (.notClosed what)

/-- A leaf. The text of a number is read here. -/
def atom (token : Token) : Except Fault Form :=
  match token.tag, token.payload with
  | .number, .text digits =>
    match Number.parse digits.toList with
    | .ok value => .ok (.leaf ⟨.number, .number value, token.place⟩)
    | .error (.literal issue) => failAt token (.badNumber issue)
    | .error fault => .error fault
  | _, _ => .ok (.leaf token)

/-- The parameters of a lambda, up to the closing parenthesis. -/
def parameters (opener : Token) (seen : List String) : Tokens → Except Fault (List Form × Tokens)
  | .broken fault => .error fault
  | .done _ => failAt opener .unmatchedParen
  | .more token rest =>
    if token.tag = .rparen then .ok ([], rest)
    else if token.tag = .symbol then do
      let name ← token.payload.written
      if seen.contains name then failAt token (.duplicateParameter name)
      let (others, rest) ← parameters opener (name :: seen) rest
      return (.leaf token :: others, rest)
    else failShowing token .parameterNotSymbol

/-- The quasiquote depth of the datum after a quoting token in code. -/
def codeDepth? : Tag → Option Nat
  | .quasiquote => some 1
  | .quote => some 0
  | _ => none

/-- Gives up; `Reader.fuelFor` makes sure that this is not reached. -/
def exhausted {α : Type} : Except Fault (α × Tokens) :=
  .error .tooDeep

mutual

/-- The form that starts with `token`. -/
def expression : Nat → Token → Tokens → Except Fault (Form × Tokens)
  | 0, _, _ => exhausted
  | fuel + 1, token, tokens =>
    if token.tag = .lparen then form fuel token tokens
    else if token.isPrefix then quoting fuel token tokens
    else if token.tag.isAtom then do return (← atom token, tokens)
    else failShowing token .unexpectedToken

/-- The operands of a form, up to its closing parenthesis. -/
def operands : Nat → (opener : Token) → (dots : Bool) → Tokens → Except Fault (List Form × Tokens)
  | 0, _, _, _ => exhausted
  | fuel + 1, opener, dots, tokens => do
    let (token, tokens) ← next opener tokens
    if token.tag = .rparen then return ([], tokens)
    else if token.tag = .dot then
      if dots then
        let (tail, tokens) ← dottedTail fuel token opener none tokens
        return ([tail], tokens)
      else failAt token .unexpectedDot
    else
      let (first, tokens) ← expression fuel token tokens
      let (others, tokens) ← operands fuel opener dots tokens
      return (first :: others, tokens)

/-- What follows a dot, and the closing parenthesis. In data the quasiquote depth
is given. -/
def dottedTail : Nat → (dot opener : Token) → (depth : Option Nat) → Tokens →
    Except Fault (Form × Tokens)
  | 0, _, _, _, _ => exhausted
  | fuel + 1, dot, opener, depth, tokens => do
    let (token, tokens) ← next opener tokens
    if token.tag = .rparen then failAt token .dotWithoutElement
    let (tail, tokens) ←
      match depth with
      | none => expression fuel token tokens
      | some depth => datum fuel token depth tokens
    let (closer, tokens) ← next opener tokens
    if closer.tag = .rparen then return (.compoundAt .dot [tail] dot, tokens)
    else failAt closer .dotBeforeEnd

/-- The form after an opening parenthesis. -/
def form : Nat → (opener : Token) → Tokens → Except Fault (Form × Tokens)
  | 0, _, _ => exhausted
  | fuel + 1, opener, tokens => do
    let (head, tokens) ← next opener tokens
    if head.tag = .rparen then return (.compoundAt .empty [] opener, tokens)
    else if head.tag = .lparen || head.isPrefix then
      let (operator, tokens) ← expression fuel head tokens
      let (arguments, tokens) ← operands fuel opener false tokens
      return (.compoundAt .apply (operator :: arguments) opener, tokens)
    else if head.tag = .symbol || head.tag = .operator || head.tag = .sequence then
      let (arguments, tokens) ← operands fuel opener false tokens
      return (⟨head, arguments, true⟩, tokens)
    else if head.tag.isLiteral then
      let first ← atom head
      let (others, tokens) ← operands fuel opener true tokens
      return (.compoundAt .list (first :: others) head, tokens)
    else if head.tag = .lambda then lambdaForm fuel head opener tokens
    else if head.tag = .define then defineForm fuel head opener tokens
    else if head.tag = .cond then
      let (clauses, tokens) ← condClauses fuel opener tokens
      return (⟨head, clauses, true⟩, tokens)
    else if head.tag = .letAll || head.tag = .letEach || head.tag = .letRec then
      letForm fuel head opener tokens
    else if head.tag.isQuoting then
      let (quoted, tokens) ← quoting fuel head tokens
      let tokens ← close opener head.tag.keyword tokens
      return (quoted, tokens)
    else failShowing head .unknownHead

def lambdaForm : Nat → (head opener : Token) → Tokens → Except Fault (Form × Tokens)
  | 0, _, _, _ => exhausted
  | fuel + 1, head, opener, tokens => do
    let (token, tokens) ← next opener tokens
    if token.tag = .lparen then
      let (params, tokens) ← parameters opener [] tokens
      let (body, tokens) ← operands fuel opener false tokens
      if body.isEmpty then failAt head .lambdaBody
      else return (⟨head, .compoundAt .params params token :: body, true⟩, tokens)
    else failAt token .lambdaParameters

def defineForm : Nat → (head opener : Token) → Tokens → Except Fault (Form × Tokens)
  | 0, _, _, _ => exhausted
  | fuel + 1, head, opener, tokens => do
    let (name, tokens) ← next opener tokens
    if name.tag = .symbol then
      let (values, tokens) ← operands fuel opener false tokens
      match values with
      | [value] => return (⟨head, [.leaf name, value], true⟩, tokens)
      | _ => failAt head .defineParts
    else failShowing name .defineNotSymbol

/-- The clauses of a cond, up to its closing parenthesis. -/
def condClauses : Nat → (opener : Token) → Tokens → Except Fault (List Form × Tokens)
  | 0, _, _ => exhausted
  | fuel + 1, opener, tokens => do
    let (token, tokens) ← next opener tokens
    if token.tag = .rparen then return ([], tokens)
    else if token.tag = .lparen then
      let (items, tokens) ← operands fuel token false tokens
      if items.isEmpty then failAt token .emptyClause
      else
        let (others, tokens) ← condClauses fuel opener tokens
        return (.compoundAt .clause items token :: others, tokens)
    else failShowing token .clauseNotList

/-- The bindings of a let, up to the closing parenthesis of their list. -/
def letBindings : Nat → (opener : Token) → (label : String) → Tokens →
    Except Fault (List Form × Tokens)
  | 0, _, _, _ => exhausted
  | fuel + 1, opener, label, tokens => do
    let (token, tokens) ← next opener tokens
    if token.tag = .rparen then return ([], tokens)
    else if token.tag = .lparen then
      let (name, tokens) ← next opener tokens
      if name.tag = .symbol then
        let (first, tokens) ← next opener tokens
        if first.tag = .rparen then
          failAt name (.bindingWithoutValue (← name.payload.written))
        else
          let (value, tokens) ← expression fuel first tokens
          let tokens ← close opener "binding" tokens
          let (others, tokens) ← letBindings fuel opener label tokens
          return (.compoundAt .binding [.leaf name, value] token :: others, tokens)
      else failShowing name .bindingNotSymbol
    else failAt token (.bindingParens label)

/-- A let of any kind; only the plain one may be named. -/
def letForm : Nat → (head opener : Token) → Tokens → Except Fault (Form × Tokens)
  | 0, _, _, _ => exhausted
  | fuel + 1, head, opener, tokens => do
    let label := head.tag.keyword
    let (token, tokens) ← next opener tokens
    let named := token.tag = .symbol && head.tag = .letAll
    let (listOpener, tokens) ← if named then next opener tokens else pure (token, tokens)
    if listOpener.tag = .lparen then
      let (bindings, tokens) ← letBindings fuel opener label tokens
      let (body, tokens) ← operands fuel opener false tokens
      if body.isEmpty then failAt head (.emptyBody label)
      else
        let name := if named then [Form.leaf token] else []
        return (⟨head, name ++ .compoundAt .bindings bindings listOpener :: body, true⟩, tokens)
    else failAt listOpener (.bindingList label)

/-- What a quoting token in code quotes. -/
def quoting : Nat → Token → Tokens → Except Fault (Form × Tokens)
  | 0, _, _ => exhausted
  | fuel + 1, token, tokens =>
    match codeDepth? token.tag with
    | none => failAt token (.outsideQuasiquote token.tag.keyword)
    | some depth => do
      let (first, tokens) ← nextQuoted token tokens
      let (quoted, tokens) ← datum fuel first depth tokens
      return (.compoundAt token.tag [quoted] token, tokens)

/-- The datum that starts with `token`, at a quasiquote depth. -/
def datum : Nat → Token → (depth : Nat) → Tokens → Except Fault (Form × Tokens)
  | 0, _, _, _ => exhausted
  | fuel + 1, token, depth, tokens =>
    if token.tag = .lparen then datumList fuel token depth tokens
    else if token.isPrefix then datumQuoting fuel token token depth tokens
    else if token.tag.isAtom then do return (← atom token, tokens)
    else if token.tag.keyword?.isSome then
      .ok (.leaf ⟨.symbol, token.payload, token.place⟩, tokens)
    else failShowing token .unexpectedQuoted

/-- What a quoting token in data quotes. Unquoted parts at depth one are code. -/
def datumQuoting : Nat → (token opener : Token) → (depth : Nat) → Tokens →
    Except Fault (Form × Tokens)
  | 0, _, _, _, _ => exhausted
  | fuel + 1, token, opener, depth, tokens => do
    let (first, tokens) ← nextQuoted opener tokens
    let unquotes := token.tag = .unquote || token.tag = .splice
    let (quoted, tokens) ←
      if unquotes && depth = 1 then expression fuel first tokens
      else if unquotes then datum fuel first (depth - 1) tokens
      else if token.tag = .quasiquote then datum fuel first (depth + 1) tokens
      else datum fuel first depth tokens
    return (.compoundAt token.tag [quoted] token, tokens)

/-- A list in data, after its opening parenthesis. -/
def datumList : Nat → (opener : Token) → (depth : Nat) → Tokens → Except Fault (Form × Tokens)
  | 0, _, _, _ => exhausted
  | fuel + 1, opener, depth, tokens => do
    let (token, tokens) ← next opener tokens
    if token.tag = .rparen then return (.compoundAt .empty [] opener, tokens)
    else if token.tag.isQuoting && !token.isPrefix then
      let (quoted, tokens) ← datumQuoting fuel token opener depth tokens
      let tokens ← close opener token.tag.keyword tokens
      return (quoted, tokens)
    else if token.tag = .dot then failAt token .dotWithoutHead
    else
      let (first, tokens) ← datum fuel token depth tokens
      let (others, tokens) ← datumItems fuel opener depth tokens
      return (.compoundAt .list (first :: others) opener, tokens)

/-- The items of a list in data after its first one. -/
def datumItems : Nat → (opener : Token) → (depth : Nat) → Tokens → Except Fault (List Form × Tokens)
  | 0, _, _, _ => exhausted
  | fuel + 1, opener, depth, tokens => do
    let (token, tokens) ← next opener tokens
    if token.tag = .rparen then return ([], tokens)
    else if token.tag = .dot then
      let (tail, tokens) ← dottedTail fuel token opener (some depth) tokens
      return ([tail], tokens)
    else
      let (first, tokens) ← datum fuel token depth tokens
      let (others, tokens) ← datumItems fuel opener depth tokens
      return (first :: others, tokens)

end

/-- Steps that are enough to read a form from the tokens. -/
def fuelFor (tokens : Tokens) : Nat :=
  3 * (tokens.length + 1)

/-- The next form, or the token for the end of the text. -/
inductive Top where
  | form (form : Form) (rest : Tokens)
  | eof (token : Token)

/-- Reads one form from the tokens of a text. -/
def read (tokens : Tokens) : Except Fault Top :=
  match tokens with
  | .done eof => .ok (.eof eof)
  | .broken fault => .error fault
  | .more token rest => do
    let (form, rest) ← expression (fuelFor tokens) token rest
    return .form form rest

/-- All forms, at most `fuel` of them, and the fault that ended the reading. -/
def readLoop : (fuel : Nat) → Tokens → (reversed : List Form) → List Form × Option Fault
  | 0, _, reversed => (reversed.reverse, some .tooDeep)
  | fuel + 1, tokens, reversed =>
    match read tokens with
    | .error fault => (reversed.reverse, some fault)
    | .ok (.eof _) => (reversed.reverse, none)
    | .ok (.form form rest) => readLoop fuel rest (form :: reversed)

/-- The forms of tokens up to their end or the first fault. -/
def readTokens (tokens : Tokens) : List Form × Option Fault :=
  readLoop (tokens.length + 1) tokens []

/-- The forms of a text up to its end or its first fault. -/
def readForms (source : List Char) : List Form × Option Fault :=
  readTokens (.ofSource source)

/-- All forms or none. -/
def allOrNone : List Form × Option Fault → Except Fault (List Form)
  | (forms, none) => .ok forms
  | (_, some fault) => .error fault

/-- The forms of a text, all of them or none. -/
def readAll (source : List Char) : Except Fault (List Form) :=
  allOrNone (readForms source)

/-- The first form of tokens; at their end, the leaf for the end. -/
def readFirstOf (tokens : Tokens) : Except Fault Form := do
  match ← read tokens with
  | .form form _ => return form
  | .eof token => return .leaf token

/-- The first form of a text; at its end, the leaf for the end. -/
def readFirst (source : List Char) : Except Fault Form :=
  readFirstOf (.ofSource source)

/-- The forms of a text up to its end or its first fault; nesting beyond the limit is
one. -/
def readFormsWithin (limit : Nat) (source : List Char) : List Form × Option Fault :=
  readTokens ((Tokens.ofSource source).within limit)

/-- The forms of a text, all of them or none; nesting beyond the limit is a fault. -/
def readAllWithin (limit : Nat) (source : List Char) : Except Fault (List Form) :=
  allOrNone (readFormsWithin limit source)

end TowerLisp.Reader
