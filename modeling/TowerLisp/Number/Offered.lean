import TowerLisp.Number.Basic
import TowerLisp.Text.Printable

/-!
Numbers that come from outside: as they are written in a source text, and as a
surrounding program offers them in representations of its own.

A text with the letters i, j and k is a quaternion, one with digits before its last
i is complex, one with a slash is a fraction, one with a point is a double and any
other is an integer. The coefficient of a unit may be left out or be a lone sign. The
parts of a complex number or a quaternion are read in the same way as a whole number.
-/

namespace TowerLisp.Number

open Text (trim isDigit)

/-- Everything up to the last character that satisfies `p`, that character and
what follows it. -/
def splitLast (p : Char → Bool) (cs : List Char) : Option (List Char × Char × List Char) :=
  match cs.reverse.span (!p ·) with
  | (_, []) => none
  | (after, c :: before) => some (before.reverse, c, after.reverse)

/-- Everything before the first character `c`, and what follows it. -/
def splitFirst (c : Char) (cs : List Char) : Option (List Char × List Char) :=
  match cs.span (· != c) with
  | (_, []) => none
  | (before, _ :: after) => some (before, after)

def isSign (c : Char) : Bool :=
  c == '+' || c == '-'

def isQuaternionText (cs : List Char) : Bool :=
  cs.contains 'i' && cs.contains 'j' && cs.contains 'k'

def isComplexText (cs : List Char) : Bool :=
  match splitLast (· == 'i') cs with
  | none => false
  | some (before, _, _) => !cs.contains 'j' && !cs.contains 'k' && before.any isDigit

def isRationalText (cs : List Char) : Bool :=
  cs.contains '/' && !cs.contains 'i' && !cs.contains 'j' && !cs.contains 'k'

/-- Splits at the last sign that is not the first character. Without a real part
in front of that sign, none is given. -/
def splitReal : List Char → Option (List Char) × List Char
  | [] => (none, ['+', '1'])
  | first :: rest =>
    match splitLast isSign rest with
    | none => (none, first :: rest)
    | some (middle, sign, after) =>
      let real := first :: middle
      (if real = ['+'] || real = ['-'] then none else some real, sign :: after)

/-- A coefficient with two signs merged into one. -/
def mergeSigns : List Char → List Char
  | '+' :: '-' :: rest => '-' :: rest
  | '-' :: '+' :: rest => '-' :: rest
  | '+' :: '+' :: rest => '+' :: rest
  | '-' :: '-' :: rest => '-' :: rest
  | cs => cs

/-- A coefficient that is one or minus one because it has no digits. -/
def unitCoefficient? (cs : List Char) : Option Number :=
  if cs = [] || cs = ['+'] then some (ofInt 1)
  else if cs = ['-'] then some (ofInt (-1))
  else none

def literalFault (issue : String → LiteralIssue) (cs : List Char) : Except Fault Number :=
  .error (.literal (issue (String.ofList cs)))

def readInteger (cs : List Char) : Except Fault Number :=
  match Text.integer? cs with
  | some n => .ok (ofInt n)
  | none => literalFault .integer cs

def readRational (cs : List Char) : Except Fault Number :=
  match splitFirst '/' cs with
  | none => literalFault .rational cs
  | some (p, q) =>
    match Text.integer? p, Text.integer? q with
    | some p, some q => if q = 0 then literalFault .zeroDenominator cs else fraction p q
    | _, _ => literalFault .rational cs

/-- A double, or a decimal if the numeral is too large for one. -/
def readDecimal (cs : List Char) : Except Fault Number :=
  match Binary64.parse? cs with
  | none => literalFault .decimal cs
  | some x =>
    if x.isFinite then .ok (ofBinary64 x)
    else
      match Decimal.parse? cs with
      | none => literalFault .decimal cs
      | some d => ofDecimal d

/-- The coefficient of a unit, by a reader of numbers. -/
def readCoefficient (read : List Char → Except Fault Number) (cs : List Char) :
    Except Fault Number :=
  match unitCoefficient? cs with
  | some n => .ok n
  | none =>
    let cs := mergeSigns cs
    match unitCoefficient? cs with
    | some n => .ok n
    | none => read cs

/-- The real part, which is zero if it is left out. -/
def readReal (read : List Char → Except Fault Number) : Option (List Char) → Except Fault Number
  | none => .ok zero
  | some cs => read cs

def readComplex (read : List Char → Except Fault Number) (cs : List Char) :
    Except Fault Number :=
  match splitLast (· == 'i') cs with
  | some (before, _, []) => do
    let (real, imaginary) := splitReal before
    let re ← readReal read real
    return complex re (← readCoefficient read imaginary)
  | _ => literalFault .complexEnd cs

def readQuaternion (read : List Char → Except Fault Number) (cs : List Char) :
    Except Fault Number :=
  match splitFirst 'i' cs with
  | none => literalFault .quaternion cs
  | some (beforeI, afterI) =>
    match splitFirst 'j' afterI with
    | none => literalFault .quaternion cs
    | some (beforeJ, afterJ) =>
      match splitFirst 'k' afterJ with
      | none => literalFault .quaternion cs
      | some (_, _ :: _) => literalFault .quaternionEnd cs
      | some (beforeK, []) => do
        let (real, i) := splitReal beforeI
        let re ← readReal read real
        return quaternion re (← readCoefficient read i) (← readCoefficient read beforeJ)
          (← readCoefficient read beforeK)

/-- Reads a number whose parts nest at most `depth` levels. -/
def parseWithin : Nat → List Char → Except Fault Number
  | 0, _ => .error (.literal .empty)
  | depth + 1, text =>
    let cs := trim text
    if cs.isEmpty then .error (.literal .empty)
    else if isQuaternionText cs then readQuaternion (parseWithin depth) cs
    else if isComplexText cs then readComplex (parseWithin depth) cs
    else if isRationalText cs then readRational cs
    else if cs.contains '.' then readDecimal cs
    else readInteger cs

/-- The number that a text denotes. Each part of a number is shorter than the
whole, so the length bounds the nesting. -/
def parse (cs : List Char) : Except Fault Number :=
  parseWithin (cs.length + 1) cs

end TowerLisp.Number

namespace TowerLisp

/-- What may be offered as a number. -/
inductive Offered where
  | number (value : Number)
  | integer (value : Int)
  | fraction (value : Rat)
  | double (value : Binary64)
  | decimal (value : Decimal)
  | complex (re im : Binary64)
  | truth (value : Bool)
  | text (value : String)
  | nothing

namespace Offered

def refuse (shown : String) : Except Fault Number :=
  .error (.mistyped (.notANumber shown))

/-- The number that is offered. Truth values and texts are none. -/
def toNumber : Offered → Except Fault Number
  | number value => .ok value
  | integer value => .ok (.ofInt value)
  | fraction value => .ok (.ofRat value)
  | double value => .ok (.ofBinary64 value)
  | decimal value => Number.ofDecimal value
  | complex re im => .ok (.complex (.ofBinary64 re) (.ofBinary64 im))
  | truth value => refuse (if value then "True" else "False")
  | text value => refuse (Text.shown value.toList)
  | nothing => refuse "None"

end Offered

end TowerLisp
