import TowerLisp.Number.Kind

/-!
What can go wrong. A fault names its cause; `Fault.message` words it. Faults of
the language are reported to the user, and a session goes on after them. A
breakdown has no wording of its own and, unless it is the limit on nested
evaluation, ends the program that runs the session.
-/

namespace TowerLisp

/-- A place in a source text; lines and columns are counted from one. -/
structure Place where
  line : Nat
  column : Nat
deriving DecidableEq, Repr

/-- Why a text is not a number. -/
inductive LiteralIssue where
  | empty
  | complexEnd (text : String)
  | quaternion (text : String)
  | quaternionEnd (text : String)
  | rational (text : String)
  | zeroDenominator (text : String)
  | decimal (text : String)
  | integer (text : String)
deriving DecidableEq, Repr

def LiteralIssue.message : LiteralIssue → String
  | empty => "Empty numeric literal"
  | complexEnd text => "Complex numbers must end with 'i': " ++ text
  | quaternion text => "Invalid quaternion literal: " ++ text
  | quaternionEnd text => "Quaternions must end with 'k': " ++ text
  | rational text => "Invalid rational literal: " ++ text
  | zeroDenominator text => "Division by zero in rational literal: " ++ text
  | decimal text => "Invalid decimal literal: " ++ text
  | integer text => "Invalid integer literal: " ++ text

/-- Why a source text or a form is not well formed. Tokens, forms and labels
are given by their text. -/
inductive SyntaxIssue where
  -- found while splitting the text into tokens
  | unterminatedString
  | incompleteCharacter
  | unknownCharacterName (name : String)
  | unknownToken (text : String)
  | unexpectedCharacter (shown : String)
  -- found while reading forms
  | unmatchedParen
  | notClosed (what token : String)
  | badNumber (issue : LiteralIssue)
  | unexpectedToken (token : String)
  | unexpectedQuoted (token : String)
  | unknownHead (token : String)
  | unexpectedDot
  | dotWithoutElement
  | dotBeforeEnd
  | dotWithoutHead
  | lambdaParameters
  | parameterNotSymbol (token : String)
  | duplicateParameter (name : String)
  | lambdaBody
  | defineNotSymbol (token : String)
  | defineParts
  | clauseNotList (token : String)
  | emptyClause
  | bindingList (label : String)
  | bindingParens (label : String)
  | bindingNotSymbol (token : String)
  | bindingWithoutValue (name : String)
  | emptyBody (label : String)
  | outsideQuasiquote (label : String)
  | quoteAtEnd
  -- found while evaluating a form
  | cannotEvaluate (token : String)
  | cannotEvaluateForm (form : String)
  | defineForm
  | lambdaForm
  | lambdaFormParameters
  | letForm
  | quoteForm
  | quasiquoteForm
  | unquoteForm
  | spliceForm
  | spliceOutsideList
deriving DecidableEq, Repr

def SyntaxIssue.message : SyntaxIssue → String
  | unterminatedString => "Unterminated string literal"
  | incompleteCharacter => "Incomplete character literal"
  | unknownCharacterName name => "Unknown character name #\\" ++ name
  | unknownToken text => "Unknown token " ++ text
  | unexpectedCharacter shown => "Unexpected character " ++ shown
  | unmatchedParen => "Unexpected EOF encountered: '(' not matched with ')'"
  | notClosed what token => what ++ " must end with ')', found: " ++ token
  | badNumber issue => issue.message
  | unexpectedToken token => "Unexpected token " ++ token
  | unexpectedQuoted token => "Unexpected token " ++ token ++ " in quoted data"
  | unknownHead token => "unknown token " ++ token
  | unexpectedDot => "Unexpected dot"
  | dotWithoutElement => "Dot must be followed by an element"
  | dotBeforeEnd => "Dotted pair must end the list"
  | dotWithoutHead => "Dot must follow an element"
  | lambdaParameters => "Lambda must be followed by a parameter list in parentheses"
  | parameterNotSymbol token => "Parameter list must contain only symbols, found: " ++ token
  | duplicateParameter name => "Duplicate parameter " ++ name
  | lambdaBody => "lambda requires a body"
  | defineNotSymbol token => "define expects a symbol, found: " ++ token
  | defineParts => "define expects a name and exactly one expression"
  | clauseNotList token => "cond clauses must be lists, found: " ++ token
  | emptyClause => "Empty cond clause"
  | bindingList label => label ++ " must be followed by a binding list in parentheses"
  | bindingParens label => "each " ++ label ++ " binding must be enclosed in parentheses"
  | bindingNotSymbol token => "binding must start with a symbol, found: " ++ token
  | bindingWithoutValue name => "binding " ++ name ++ " has no value"
  | emptyBody label => label ++ " requires a body"
  | outsideQuasiquote label => label ++ " outside of quasiquote"
  | quoteAtEnd => "Unexpected EOF while parsing quote"
  | cannotEvaluate token => "Cannot evaluate " ++ token
  | cannotEvaluateForm form => "Cannot evaluate form " ++ form
  | defineForm => "define requires a symbol and one expression"
  | lambdaForm => "lambda requires a parameter list and a body"
  | lambdaFormParameters => "lambda requires a parameter list"
  | letForm => "let requires a binding list"
  | quoteForm => "quote expects exactly 1 argument"
  | quasiquoteForm => "quasi-quote expects exactly 1 argument"
  | unquoteForm => "unquote not valid outside of quasi-quote"
  | spliceForm => "unquote-splicing not valid outside of quasi-quote"
  | spliceOutsideList => "unquote-splicing is only valid inside a list"

/-- Which value has the wrong type. Values are given by their text. -/
inductive TypeIssue where
  | notANumber (shown : String)
  | expectedNumber (got : String)
  | expectedReal (got : String)
  | modulusNotScalar (got : String)
  | exponentNotScalar (got : String)
  | exponentNotInteger (base : Kind)
  | floorNotReal (got : String)
  | headOfEmptyString
  | tailOfEmptyString
  | head (got : String)
  | tail (got : String)
  | lengthOfImproper (got : String)
  | length (got : String)
  | spliceNotList (got : String)
  | vectorElement (got : String)
  | vectorSizes (verb : String) (left right : Nat)
  | operand (procedure got : String)
  | mixedVectors (procedure : String)
  | stringToList (got : String)
  | listToString (got : String)
  | applyArguments
  | fileName (procedure got : String)
  | lines (got : String)
deriving DecidableEq, Repr

def TypeIssue.message : TypeIssue → String
  | notANumber shown => "Not a number: " ++ shown
  | expectedNumber got => "Expected a number, got " ++ got
  | expectedReal got => "Expected a real number, got " ++ got
  | modulusNotScalar got => "Modulo divisor must be scalar; got " ++ got
  | exponentNotScalar got => "Exponent must be scalar; got " ++ got
  | exponentNotInteger base =>
    "Non-integer exponents are unsupported for " ++ base.name ++ " numbers"
  | floorNotReal got => "floor expects a real number, got " ++ got
  | headOfEmptyString => "head of empty string"
  | tailOfEmptyString => "tail of empty string"
  | head got => "head expects a non-empty list, got " ++ got
  | tail got => "tail expects a non-empty list, got " ++ got
  | lengthOfImproper got => "length of improper list " ++ got
  | length got => "length expects a list, got " ++ got
  | spliceNotList got => "unquote-splicing requires a list, got " ++ got
  | vectorElement got => "Vector elements must be numbers, got " ++ got
  | vectorSizes verb left right =>
    "Cannot " ++ verb ++ " vectors of size " ++ left.repr ++ " and " ++ right.repr
  | operand procedure got => procedure ++ ": expected number, got " ++ got
  | mixedVectors procedure => procedure ++ ": mixed vector/non-vector arguments"
  | stringToList got => "string->list expects a string, got " ++ got
  | listToString got => "list->string expects a list of characters, got " ++ got
  | applyArguments => "Second argument to apply must be a list"
  | fileName procedure got => procedure ++ ": expected a file name, got " ++ got
  | lines got => "write-lines expects a list of lines, got " ++ got

/-- Which call has the wrong number of arguments. -/
inductive ArityIssue where
  | count (procedure : String) (expected got : Nat)
  | vectorProduct
  | emptyQuotient
deriving DecidableEq, Repr

def ArityIssue.message : ArityIssue → String
  | count procedure expected got =>
    procedure ++ " expects " ++ expected.repr ++ " argument(s), got " ++ got.repr
  | vectorProduct => "*: vector multiplication requires one scalar argument"
  | emptyQuotient => "/ expects at least one argument"

/-- Which numeric operation has no result. -/
inductive ArithmeticIssue where
  | undefinedPower
  | powerOutOfRange
  | outOfDoubleRange (shown : String)
  | floorOfNonFinite (shown : String)
deriving DecidableEq, Repr

def ArithmeticIssue.message : ArithmeticIssue → String
  | undefinedPower => "Exponentiation result undefined for given operands"
  | powerOutOfRange => "Exponentiation out of range"
  | outOfDoubleRange shown => shown ++ " is out of double range"
  | floorOfNonFinite shown => "Cannot floor " ++ shown

/-- Where a divisor is zero. -/
inductive ZeroIssue where
  | denominator (numerator : String)
  | quotient
  | complexQuotient
  | quaternionQuotient
  | modulus
deriving DecidableEq, Repr

def ZeroIssue.message : ZeroIssue → String
  | denominator numerator => "Rational with zero denominator: " ++ numerator ++ "/0"
  | quotient => "Division by zero"
  | complexQuotient => "Division by zero complex number"
  | quaternionQuotient => "Division by zero quaternion"
  | modulus => "Modulo by zero"

/-- Conditions that the language does not report. -/
inductive Breakdown where
  /-- A decimal operation on infinities or NaN that has no result. -/
  | invalidDecimal
  /-- A decimal result beyond the largest exponent. -/
  | decimalOverflow
  /-- A decimal divisor that is zero because the exact divisor was rounded. -/
  | decimalDivisorVanished
  /-- A double divisor that is zero because the exact divisor was rounded. -/
  | doubleDivisorVanished
  /-- Vectors whose sizes do not fit together. -/
  | unequalSizes
  /-- A number without a double or an exact counterpart because it is too large. -/
  | tooLarge
  /-- A value without a text or an exact counterpart. -/
  | unrepresentable
  /-- A file that is not UTF-8. -/
  | undecodable
  /-- A path with a name that is too long. -/
  | longName
  /-- A path list that holds separators only. -/
  | noPath
  /-- Numbers whose magnitudes are not real. -/
  | unordered
  /-- More nested evaluations than the limit allows. -/
  | tooDeep
  /-- A chain of tail calls that is longer than the limit allows. -/
  | tooLong
  /-- A form that lacks a part. -/
  | missingPart
  /-- A form with the wrong number of parts. -/
  | wrongParts
  /-- A form with something else in place of a name or a text. -/
  | notText
deriving DecidableEq, Repr

inductive Fault where
  | malformed (issue : SyntaxIssue) (place : Option Place)
  | unbound (name : String)
  | notSymbol (shown : String)
  | noRoot
  | mistyped (issue : TypeIssue)
  | notProcedure (shown : String)
  | arity (issue : ArityIssue)
  | arithmetic (issue : ArithmeticIssue)
  | divisionByZero (issue : ZeroIssue)
  | noClauses
  | noClauseMatched
  | importNotFound (name : String)
  | sourceNotFound (name : String)
  | scriptNotFound (name : String)
  | literal (issue : LiteralIssue)
  | demotion (source target : Kind)
  | breakdown (cause : Breakdown)
deriving DecidableEq, Repr

namespace Fault

/-- The clause that names a place. -/
def placeClause : Option Place → String
  | none => ""
  | some place => " at line " ++ place.line.repr ++ ", column " ++ place.column.repr

/-- The wording of a fault; a breakdown has none. -/
def message : Fault → Option String
  | malformed issue place => some (issue.message ++ placeClause place)
  | unbound name => some ("Unbound symbol: " ++ name)
  | notSymbol shown => some (shown ++ " is not a symbol")
  | noRoot => some "environment has no root frame"
  | mistyped issue => some issue.message
  | notProcedure shown => some ("Not a procedure: " ++ shown)
  | arity issue => some issue.message
  | arithmetic issue => some issue.message
  | divisionByZero issue => some issue.message
  | noClauses => some "cond has no clauses"
  | noClauseMatched => some "No cond clause matched and no else clause"
  | importNotFound name => some ("import: cannot find " ++ name)
  | sourceNotFound name => some ("Cannot find '" ++ name ++ "' in MICROLISP_LOAD_PATH")
  | scriptNotFound name => some ("No such file: " ++ name)
  | literal issue => some issue.message
  | demotion source target => some ("cannot demote " ++ source.label ++ " to " ++ target.label)
  | breakdown _ => none

/-- The fault of too many nested evaluations. -/
def tooDeep : Fault := breakdown .tooDeep

/-- What a session says about a fault before it goes on. Other faults end it. -/
def report? : Fault → Option String
  | literal _ | demotion _ _ => none
  | breakdown .tooDeep => some "maximum recursion depth exceeded"
  | fault => fault.message

end Fault

end TowerLisp
