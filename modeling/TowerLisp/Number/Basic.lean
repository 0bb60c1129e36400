import TowerLisp.Decimal.Written

/-!
Numbers. A scalar is an integer, a fraction, a double or a decimal; complex
numbers and quaternions have numbers as their components. Integers are `int` if
they fit a signed word of 64 bits and `bigint` otherwise, and a fraction with
denominator one is an integer: `Scalar.ofInt` and `Scalar.ofRat` see to that.
-/

namespace TowerLisp

/-- A real number in one of five representations. -/
inductive Scalar where
  | int (value : Int)
  | bigint (value : Int)
  | rational (value : Rat)
  | float (value : Binary64)
  | bigfloat (value : Decimal)
deriving DecidableEq, Repr

/-- A number: a scalar, or two or four components. -/
inductive Number where
  | scalar (value : Scalar)
  | complex (re im : Number)
  | quaternion (re i j k : Number)
deriving DecidableEq, Repr

namespace Scalar

def kind : Scalar → Kind
  | int _ => .int
  | bigint _ => .bigint
  | rational _ => .rational
  | float _ => .float
  | bigfloat _ => .bigfloat

/-- Integers of a signed word of 64 bits. -/
def inWord (n : Int) : Bool :=
  -9223372036854775808 ≤ n && n < 9223372036854775808

def ofInt (n : Int) : Scalar :=
  if inWord n then int n else bigint n

def ofRat (q : Rat) : Scalar :=
  if q.den = 1 then ofInt q.num else rational q

/-- The value of an integer. -/
def int? : Scalar → Option Int
  | int v => some v
  | bigint v => some v
  | _ => none

def isExact : Scalar → Bool
  | int _ | bigint _ | rational _ => true
  | float _ | bigfloat _ => false

def isZero : Scalar → Bool
  | int v => v == 0
  | bigint v => v == 0
  | rational q => q.num == 0
  | float x => x.isZero
  | bigfloat d => d.isZero

/-- Integers, and doubles and decimals without a fractional part. -/
def isIntegral : Scalar → Bool
  | int _ => true
  | bigint _ => true
  | rational _ => false
  | float x => x.isInteger
  | bigfloat d => d.isInteger

end Scalar

namespace Number

def zero : Number := scalar (.int 0)

def one : Number := scalar (.int 1)

def ofInt (n : Int) : Number := scalar (.ofInt n)

def ofRat (q : Rat) : Number := scalar (.ofRat q)

def ofBinary64 (x : Binary64) : Number := scalar (.float x)

/-- A decimal, rounded to the precision of arithmetic. -/
def ofDecimal (d : Decimal) : Except Fault Number := do
  return scalar (.bigfloat (← d.plus .wide))

/-- A fraction given by numerator and denominator. -/
def fraction (p q : Int) : Except Fault Number :=
  if q = 0 then
    if Digits.writable p then .error (.divisionByZero (.denominator p.repr))
    else .error (.breakdown .unrepresentable)
  else .ok (ofRat (mkRat (if q < 0 then -p else p) q.natAbs))

def kind : Number → Kind
  | scalar s => s.kind
  | complex .. => .complex
  | quaternion .. => .quaternion

def isScalar : Number → Bool
  | scalar _ => true
  | _ => false

def components : Number → List Number
  | complex re im => [re, im]
  | quaternion re i j k => [re, i, j, k]
  | n => [n]

/-- How deep components nest; a scalar has height zero. -/
def height : Number → Nat
  | scalar _ => 0
  | complex re im => max re.height im.height + 1
  | quaternion re i j k => max (max re.height i.height) (max j.height k.height) + 1

def isExact : Number → Bool
  | scalar s => s.isExact
  | complex re im => re.isExact && im.isExact
  | quaternion re i j k => re.isExact && i.isExact && j.isExact && k.isExact

def isZero : Number → Bool
  | scalar s => s.isZero
  | complex re im => re.isZero && im.isZero
  | quaternion re i j k => re.isZero && i.isZero && j.isZero && k.isZero

def isIntegral : Number → Bool
  | scalar s => s.isIntegral
  | _ => false

/-- The zero of the same kind; exact kinds share one. -/
def zeroLike : Number → Number
  | scalar (.float _) => scalar (.float (.zero false))
  | scalar (.bigfloat _) => scalar (.bigfloat .zero)
  | scalar _ => zero
  | complex .. => complex zero zero
  | quaternion .. => quaternion zero zero zero zero

/-- The one of the same kind; exact kinds share one. -/
def oneLike : Number → Number
  | scalar (.float _) => scalar (.float .one)
  | scalar (.bigfloat _) => scalar (.bigfloat .one)
  | scalar _ => one
  | complex .. => complex one zero
  | quaternion .. => quaternion one zero zero zero

/-- The components of a number taken as a complex one. -/
def asComplex : Number → Number × Number
  | complex re im => (re, im)
  | n => (n, zero)

/-- The components of a number taken as a quaternion. -/
def asQuaternion : Number → Number × Number × Number × Number
  | quaternion re i j k => (re, i, j, k)
  | complex re im => (re, im, zero, zero)
  | n => (n, zero, zero, zero)

/-- The component along the real axis. -/
def realPart : Number → Number
  | complex re _ => re
  | quaternion re .. => re
  | n => n

/-- The component along the first imaginary axis. -/
def imaginaryPart : Number → Number
  | complex _ im => im
  | quaternion _ i _ _ => i
  | scalar _ => zero

end Number

end TowerLisp
