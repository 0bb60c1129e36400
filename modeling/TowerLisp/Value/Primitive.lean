/-!
The procedures that the language provides. `all` lists them in the order in which
they are bound.
-/

namespace TowerLisp

inductive Primitive where
  | add | sub | mul | div | mod | power
  | less | greater | lessEqual | greaterEqual | equal | eq
  | toInexact | toInexactBig | real | imaginary | magnitude | floor | even | odd | isNumber
  | not | bang | and | or | xor
  | cons | list | head | car | tail | cdr | length
  | isNull | isList | isString | isSymbol | isProcedure
  | stringToList | listToString | symbolToString | stringToSymbol
  | apply | vector | size | print | printf | eval
  | read | readFromFile | makeFile | makeDirectory | writeToFile | writeLines | readLines
  | splitByComma | importSource
deriving DecidableEq, Repr

namespace Primitive

def all : List Primitive :=
  [add, sub, mul, div, mod, power, less, greater, lessEqual, greaterEqual, equal, eq,
   toInexact, toInexactBig, real, imaginary, magnitude, floor, even, odd, isNumber,
   not, bang, and, or, xor, cons, list, head, car, tail, cdr, length,
   isNull, isList, isString, isSymbol, isProcedure,
   stringToList, listToString, symbolToString, stringToSymbol,
   apply, vector, size, print, printf, eval,
   read, readFromFile, makeFile, makeDirectory, writeToFile, writeLines, readLines,
   splitByComma, importSource]

def name : Primitive → String
  | add => "+"
  | sub => "-"
  | mul => "*"
  | div => "/"
  | mod => "%"
  | power => "^"
  | less => "<"
  | greater => ">"
  | lessEqual => "<="
  | greaterEqual => ">="
  | equal => "="
  | eq => "eq?"
  | toInexact => "to-inexact"
  | toInexactBig => "to-inexact-big"
  | real => "real"
  | imaginary => "imaginary"
  | magnitude => "complex-magnitude"
  | floor => "floor"
  | even => "even?"
  | odd => "odd?"
  | isNumber => "number?"
  | not => "not"
  | bang => "!"
  | and => "and"
  | or => "or"
  | xor => "xor"
  | cons => "cons"
  | list => "list"
  | head => "head"
  | car => "car"
  | tail => "tail"
  | cdr => "cdr"
  | length => "length"
  | isNull => "null?"
  | isList => "list?"
  | isString => "string?"
  | isSymbol => "symbol?"
  | isProcedure => "procedure?"
  | stringToList => "string->list"
  | listToString => "list->string"
  | symbolToString => "symbol->string"
  | stringToSymbol => "string->symbol"
  | apply => "apply"
  | vector => "$"
  | size => "size"
  | print => "print"
  | printf => "printf"
  | eval => "eval"
  | read => "read"
  | readFromFile => "read-from-file"
  | makeFile => "make-file"
  | makeDirectory => "make-directory"
  | writeToFile => "write-to-file"
  | writeLines => "write-lines"
  | readLines => "read-lines"
  | splitByComma => "split-by-comma"
  | importSource => "import"

/-- The number of arguments; some procedures take any number. -/
def arity? : Primitive → Option Nat
  | add | sub | mul | div | list | vector => none
  | read => some 0
  | mod | power | less | greater | lessEqual | greaterEqual | equal | eq => some 2
  | and | or | xor | cons | apply | writeToFile | writeLines => some 2
  | _ => some 1

end Primitive

end TowerLisp
