import TowerLisp.Fault
import TowerLisp.Binary64.Shortest

/-!
Decimal floating point numbers. A finite one keeps its coefficient and exponent
apart, so that trailing zeros are part of it. Operations are exact up to a
context's precision, round half to even, and keep the exponents of general
decimal arithmetic: the smaller one for sums, the sum for products and the
difference for quotients, as far as the precision allows.
-/

namespace TowerLisp

/-- What tells values apart that are no numbers: a mark of its own, and the mark of
the number or the vector that it is a part of. A zero stands for a mark that has
not been given. -/
structure Mark where
  own : Nat
  holder : Nat
deriving DecidableEq, Repr

/-- The mark of what has just been computed. -/
def Mark.blank : Mark := ⟨0, 0⟩

/-- A decimal: `± coefficient * 10 ^ exponent`, an infinity, or no number at all.
Arithmetic does not look at marks. -/
inductive Decimal where
  | finite (negative : Bool) (coefficient : Nat) (exponent : Int)
  | infinite (negative : Bool)
  | nan (mark : Mark)
deriving DecidableEq, Repr

/-- How precise results are, and how large and small the exponent of their first
digit may be. -/
structure Precision where
  digits : Nat
  maxExponent : Int
  minExponent : Int

namespace Precision

/-- Thirty-four digits, for arithmetic. -/
def wide : Precision := ⟨34, 999999, -999999⟩

/-- Twenty-eight digits, for a change of sign. -/
def narrow : Precision := ⟨28, 999999, -999999⟩

/-- The exponent of the smallest positive result. -/
def tiny (p : Precision) : Int :=
  p.minExponent - (p.digits - 1 : Nat)

/-- A result at the precision: rounded to its number of digits, or to its
smallest exponent. Results beyond the largest exponent are refused. -/
def round (p : Precision) (negative : Bool) (coefficient : Nat) (exponent : Int) :
    Except Fault Decimal :=
  if coefficient = 0 then
    .ok (.finite negative 0 (max p.tiny (min exponent p.maxExponent)))
  else
    let digits := Digits.count coefficient
    let magnitude := exponent + (digits - 1 : Nat)
    if p.maxExponent < magnitude then .error (.breakdown .decimalOverflow)
    else if magnitude < p.minExponent then
      if exponent < p.tiny then
        let cut := (p.tiny - exponent).toNat
        if digits < cut then .ok (.finite negative 0 p.tiny)
        else .ok (.finite negative (Digits.divNearest coefficient (Nat.pow 10 cut)) p.tiny)
      else .ok (.finite negative coefficient exponent)
    else if digits ≤ p.digits then .ok (.finite negative coefficient exponent)
    else
      let cut := digits - p.digits
      let rounded := Digits.divNearest coefficient (Nat.pow 10 cut)
      if rounded = Nat.pow 10 p.digits then
        if p.maxExponent < magnitude + 1 then .error (.breakdown .decimalOverflow)
        else .ok (.finite negative (Nat.pow 10 (p.digits - 1)) (exponent + cut + 1))
      else .ok (.finite negative rounded (exponent + cut))

end Precision

namespace Decimal

open Binary64 (signed)

def zero : Decimal := finite false 0 0

def one : Decimal := finite false 1 0

/-- The result of an operation on what is no number. -/
def undefined : Decimal := nan .blank

def invalid : Except Fault Decimal := .error (.breakdown .invalidDecimal)

/-- An integer, exactly. -/
def ofInt (n : Int) : Decimal :=
  finite (n < 0) n.natAbs 0

def isFinite : Decimal → Bool
  | finite .. => true
  | _ => false

def isZero : Decimal → Bool
  | finite _ c _ => c == 0
  | _ => false

def isNegative : Decimal → Bool
  | finite s _ _ => s
  | infinite s => s
  | nan _ => false

/-- Rounds to a precision. A negative zero becomes positive. -/
def plus (p : Precision) : Decimal → Except Fault Decimal
  | finite s c e => p.round (s && c != 0) c e
  | infinite s => .ok (infinite s)
  | nan _ => .ok undefined

/-- Changes the sign and rounds to a precision. A zero becomes positive. -/
def negate (p : Precision) : Decimal → Except Fault Decimal
  | finite s c e => p.round (!s && c != 0) c e
  | infinite s => .ok (infinite (!s))
  | nan _ => .ok undefined

/-- The same number with the other sign. -/
def flip : Decimal → Decimal
  | finite s c e => finite (!s) c e
  | infinite s => infinite (!s)
  | nan _ => undefined

/-- Two coefficients at one exponent, where `f` is not above `e`. Of a number that
lies below all digits that the precision keeps of the other one, it only matters
that it is not zero, and a unit that is still below them stands for it. -/
def align (p : Precision) (c : Nat) (e : Int) (d : Nat) (f : Int) : Nat × Nat × Int :=
  if c = 0 then (0, d, f)
  else
    let low := e + min (-1) ((Digits.count c : Int) - p.digits - 2)
    let (d, f) :=
      if d = 0 then (0, max f low) else if Digits.count d + f - 1 < low then (1, low) else (d, f)
    (c * Nat.pow 10 (e - f).toNat, d, f)

def add (p : Precision) : Decimal → Decimal → Except Fault Decimal
  | finite s c e, finite t d f =>
    let (c, d, g) :=
      if f ≤ e then align p c e d f
      else
        let (d, c, g) := align p d f c e
        (c, d, g)
    let sum := signed s c + signed t d
    if sum = 0 then p.round (s && t) 0 (min e f) else p.round (sum < 0) sum.natAbs g
  | nan _, _ => .ok undefined
  | _, nan _ => .ok undefined
  | infinite s, infinite t => if s = t then .ok (infinite s) else invalid
  | infinite s, _ => .ok (infinite s)
  | _, infinite t => .ok (infinite t)

def sub (p : Precision) (x y : Decimal) : Except Fault Decimal :=
  add p x y.flip

def mul (p : Precision) : Decimal → Decimal → Except Fault Decimal
  | finite s c e, finite t d f => p.round (s != t) (c * d) (e + f)
  | nan _, _ => .ok undefined
  | _, nan _ => .ok undefined
  | x, y =>
    if x.isZero || y.isZero then invalid else .ok (infinite (x.isNegative != y.isNegative))

/-- Divides out factors of ten while the exponent is below `ideal`. -/
def reduceToward (ideal : Int) : Nat → Nat → Int → Nat × Int
  | 0, c, e => (c, e)
  | fuel + 1, c, e =>
    if e < ideal && c % 10 = 0 then reduceToward ideal fuel (c / 10) (e + 1) else (c, e)

/-- The quotient of two coefficients with two digits more than the precision has.
A quotient that is not exact ends in a digit other than 0 and 5, so that it is
rounded the right way. -/
def quotient (p : Precision) (c : Nat) (e : Int) (d : Nat) (f : Int) : Nat × Int :=
  let shift : Int := Digits.count d - Digits.count c + (p.digits + 1 : Nat)
  let (n, d) :=
    if shift < 0 then (c, d * Nat.pow 10 (-shift).toNat) else (c * Nat.pow 10 shift.toNat, d)
  let q := n / d
  let exponent := e - f - shift
  if n % d = 0 then reduceToward (e - f) (Digits.count q) q exponent
  else (if q % 5 = 0 then q + 1 else q, exponent)

/-- A quotient. A finite number by zero is refused. -/
def div (p : Precision) : Decimal → Decimal → Except Fault Decimal
  | finite s c e, finite t d f =>
    if d = 0 then (if c = 0 then invalid else .error (.breakdown .decimalDivisorVanished))
    else if c = 0 then p.round (s != t) 0 (e - f)
    else
      let (q, exponent) := quotient p c e d f
      p.round (s != t) q exponent
  | nan _, _ => .ok undefined
  | _, nan _ => .ok undefined
  | infinite _, infinite _ => invalid
  | infinite s, y => .ok (infinite (s != y.isNegative))
  | x, infinite t => .ok (finite (x.isNegative != t) 0 p.tiny)

/-- The greatest integer not above a number, with its exponent if that is not
negative. -/
def floor : Decimal → Decimal
  | finite s c e =>
    if 0 ≤ e then finite s c e
    else
      let places := (-e).toNat
      let (whole, exact) :=
        if Digits.count c < places then (0, c == 0)
        else (c / Nat.pow 10 places, c % Nat.pow 10 places == 0)
      finite s (if s && !exact then whole + 1 else whole) 0
  | x => x

/-- Finite values without a fractional part. -/
def isInteger : Decimal → Bool
  | finite _ c e =>
    if 0 ≤ e then true
    else
      let places := (-e).toNat
      if Digits.count c < places then c == 0 else c % Nat.pow 10 places == 0
  | _ => false

/-- The order of two coefficients at their exponents. Numbers whose first digits
have different places are told apart without being expanded. -/
def compareMagnitude (c : Nat) (e : Int) (d : Nat) (f : Int) : Ordering :=
  if c = 0 || d = 0 then compare c d
  else
    let first : Int := Digits.count c + e
    let second : Int := Digits.count d + f
    if first = second then
      let g := min e f
      compare (c * Nat.pow 10 (e - g).toNat) (d * Nat.pow 10 (f - g).toNat)
    else compare first second

/-- The order of two decimals; a value that is no number has no order. -/
def compare? : Decimal → Decimal → Option Ordering
  | nan _, _ => none
  | _, nan _ => none
  | finite s c e, finite t d f =>
    match s && c != 0, t && d != 0 with
    | false, false => some (compareMagnitude c e d f)
    | true, true => some (compareMagnitude d f c e)
    | true, false => some .lt
    | false, true => some .gt
  | infinite s, infinite t => some (compare (signed s 1) (signed t 1))
  | infinite s, finite .. => some (if s then .lt else .gt)
  | finite .., infinite t => some (if t then .gt else .lt)

/-- The exact value of a finite decimal. -/
def toRat? : Decimal → Option Rat
  | finite s c e =>
    some (if e < 0 then mkRat (signed s c) (Nat.pow 10 (-e).toNat)
      else mkRat (signed s c * (Nat.pow 10 e.toNat : Nat)) 1)
  | _ => none

/-- The nearest double; past the largest double, an infinity. -/
def toBinary64 : Decimal → Binary64
  | finite s c e => Binary64.ofDecimal s c e
  | infinite s => .infinite s
  | nan _ => .nan

end Decimal

end TowerLisp
