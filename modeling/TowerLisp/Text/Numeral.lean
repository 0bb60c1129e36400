import TowerLisp.Text.Digit

/-!
Decimal digits of natural numbers: how many there are, and division that rounds
half to even. Numerals: how the digits of a number are written. Digits of every
script are accepted. A single underscore may stand between two digits.
-/

namespace TowerLisp.Digits

/-- The number of decimal digits of a number below `10 ^ 2 ^ k`, found by
halving the number of digits. -/
def countBelow : Nat → Nat → Nat
  | 0, _ => 1
  | k + 1, n =>
    let power := Nat.pow 10 (Nat.pow 2 k)
    if n < power then countBelow k n else Nat.pow 2 k + countBelow k (n / power)

/-- The number of decimal digits of `n`; zero has one digit. -/
def count (n : Nat) : Nat :=
  countBelow ((n.log2 + 1).log2 + 1) n

/-- The nearest integer to `n / d`; a half goes to the even neighbour. -/
def divNearest (n d : Nat) : Nat :=
  let quotient := n / d
  let rest := n % d
  if d < 2 * rest || (2 * rest == d && quotient % 2 == 1) then quotient + 1 else quotient

/-- The most digits an integer may have that is read from a text or written as one. -/
def textLimit : Nat := 4300

/-- Integers that are short enough to be written. -/
def writable (n : Int) : Bool :=
  n.natAbs < Nat.pow 10 textLimit

end TowerLisp.Digits

namespace TowerLisp.Text

/-- A decimal numeral: `± coefficient * 10 ^ exponent`. -/
structure Numeral where
  negative : Bool
  coefficient : Nat
  exponent : Int
deriving DecidableEq, Repr

namespace Numeral

/-- The number that a row of digits denotes. -/
def ofDigits (digits : List Nat) : Nat :=
  digits.foldl (fun n d => 10 * n + d) 0

/-- The leading digits of a text and what follows them. -/
def takeDigits : List Char → List Nat × List Char
  | [] => ([], [])
  | c :: rest =>
    match digitValue? c with
    | some d =>
      let (digits, rest) := takeDigits rest
      (d :: digits, rest)
    | none => ([], c :: rest)

/-- A sign, if the text starts with one, and what follows it. -/
def takeSign : List Char → Bool × List Char
  | '-' :: rest => (true, rest)
  | '+' :: rest => (false, rest)
  | rest => (false, rest)

/-- A text without its underscores, if each of them stands between two digits. -/
def dropUnderscores : (afterDigit : Bool) → List Char → Option (List Char)
  | _, [] => some []
  | afterDigit, c :: rest =>
    if c = '_' then
      match rest with
      | d :: _ =>
        if afterDigit && (digitValue? d).isSome then dropUnderscores false rest else none
      | [] => none
    else
      (dropUnderscores (digitValue? c).isSome rest).map (c :: ·)

/-- The exponent that ends a numeral; no exponent counts as zero. -/
def exponent? : List Char → Option Int
  | [] => some 0
  | mark :: rest =>
    if mark = 'e' || mark = 'E' then
      let (negative, rest) := takeSign rest
      match takeDigits rest with
      | ([], _) => none
      | (_, _ :: _) => none
      | (digits, []) =>
        some (if negative then -(ofDigits digits : Int) else (ofDigits digits : Int))
    else none

/-- A numeral with an optional sign, point and exponent, and at least one digit
beside the point. -/
def parse? (cs : List Char) : Option Numeral :=
  let (negative, rest) := takeSign cs
  let (whole, rest) := takeDigits rest
  let (fraction, rest) :=
    match rest with
    | '.' :: rest => takeDigits rest
    | _ => ([], rest)
  if whole.isEmpty && fraction.isEmpty then none
  else
    (exponent? rest).map fun e =>
      { negative, coefficient := ofDigits (whole ++ fraction), exponent := e - fraction.length }

end Numeral

/-- An integer numeral with an optional sign, blanks at its ends and underscores
between its digits. One with too many digits is refused. -/
def integer? (cs : List Char) : Option Int := do
  let (negative, rest) := Numeral.takeSign (trimWhile isNumeralBlank cs)
  let rest ← Numeral.dropUnderscores false rest
  match Numeral.takeDigits rest with
  | ([], _) => none
  | (_, _ :: _) => none
  | (digits, []) =>
    if Digits.textLimit < digits.length then none
    else
      let magnitude : Int := Numeral.ofDigits digits
      some (if negative then -magnitude else magnitude)

end TowerLisp.Text
