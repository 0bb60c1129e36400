import TowerLisp.Decimal.Basic

/-!
Decimals as text. A decimal is written without an exponent, with all its
trailing zeros; it is read from a numeral, which fixes coefficient and exponent.
-/

namespace TowerLisp.Decimal

open Binary64 (zeroChars)

/-- The digits of a coefficient at an exponent, with a point if that is negative. -/
def positional (coefficient : Nat) (exponent : Int) : List Char :=
  let digits := Nat.toDigits 10 coefficient
  if 0 ≤ exponent then
    if coefficient = 0 then ['0'] else digits ++ zeroChars exponent.toNat
  else
    let places := (-exponent).toNat
    let digits := zeroChars (places + 1 - digits.length) ++ digits
    let whole := digits.length - places
    digits.take whole ++ '.' :: digits.drop whole

/-- The text of a decimal. -/
def text : Decimal → String
  | nan _ => "NaN"
  | infinite s => if s then "-Infinity" else "Infinity"
  | finite s c e => String.ofList ((if s then ['-'] else []) ++ positional c e)

/-- The largest exponent of a first digit that is read. -/
def readMaxExponent : Int := 999999999999999999

/-- The smallest exponent that is read. -/
def readMinExponent : Int := -1999999999999999997

/-- The decimal that a text denotes: a numeral, or a word for an infinity or for
no number. Blanks at its ends and all underscores are ignored. -/
def parse? (cs : List Char) : Option Decimal :=
  let cs := (Text.trim cs).filter (· != '_')
  match Text.Numeral.parse? cs with
  | some n =>
    if readMaxExponent < n.exponent + Digits.count n.coefficient - 1
        || n.exponent < readMinExponent then none
    else some (finite n.negative n.coefficient n.exponent)
  | none =>
    let (negative, rest) := Text.Numeral.takeSign cs
    let word := String.ofList (rest.map Char.toLower)
    if word = "inf" || word = "infinity" then some (infinite negative)
    else if word = "nan" then some undefined
    else none

/-- The decimal that the text of a double denotes. -/
def ofBinary64 (x : Binary64) : Decimal :=
  (parse? x.textChars).getD undefined

end TowerLisp.Decimal
