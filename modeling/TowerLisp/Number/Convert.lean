import TowerLisp.Number.Basic

/-!
Conversions between the representations of a scalar, and the kind at which an
operation on two numbers is carried out. Exact numbers that no double can hold
move an operation with a double up to decimals.
-/

namespace TowerLisp

namespace Scalar

/-- The exact value. Infinities and NaN have none. -/
def toRat : Scalar → Except Fault Rat
  | int v => .ok (mkRat v 1)
  | bigint v => .ok (mkRat v 1)
  | rational q => .ok q
  | float .nan => .error (.breakdown .unrepresentable)
  | bigfloat (.nan _) => .error (.breakdown .unrepresentable)
  | float x => x.toRat?.elim (.error (.breakdown .tooLarge)) .ok
  | bigfloat d => d.toRat?.elim (.error (.breakdown .tooLarge)) .ok

/-- A double that came from an exact number; an infinity means that it was too large. -/
def exactDouble (x : Binary64) : Except Fault Binary64 :=
  if x.isFinite then .ok x else .error (.breakdown .tooLarge)

/-- The nearest double. Exact numbers beyond the largest double have none. -/
def toBinary64 : Scalar → Except Fault Binary64
  | int v => exactDouble (.ofInt v)
  | bigint v => exactDouble (.ofInt v)
  | rational q => exactDouble (.ofRat q)
  | float x => .ok x
  | bigfloat d => .ok d.toBinary64

/-- The decimal of a scalar: integers exactly, fractions rounded, and doubles by
their text. -/
def toDecimal : Scalar → Except Fault Decimal
  | int v => .ok (.ofInt v)
  | bigint v => .ok (.ofInt v)
  | rational q => Decimal.div .wide (.ofInt q.num) (.ofInt q.den)
  | float x => .ok (.ofBinary64 x)
  | bigfloat d => .ok d

/-- Scalars other than exact numbers too large for a double. -/
def fitsDouble (s : Scalar) : Bool :=
  if s.isExact then s.toBinary64.isOk else true

/-- The kind at which two scalars are combined. -/
def join (a b : Scalar) : Kind :=
  let kind := a.kind.join b.kind
  if kind = .float && !(a.fitsDouble && b.fitsDouble) then .bigfloat else kind

end Scalar

namespace Number

/-- The kind at which two numbers are combined. -/
def join : Number → Number → Kind
  | scalar s, scalar t => s.join t
  | a, b => a.kind.join b.kind

/-- A scalar represented at a larger kind. -/
def promoteScalar (s : Scalar) : Kind → Except Fault Number
  | .int => .ok (scalar s)
  | .bigint => .ok (scalar (.bigint (s.int?.getD 0)))
  | .rational => do return scalar (.rational (← s.toRat))
  | .float => do return scalar (.float (← s.toBinary64))
  | .bigfloat => do return scalar (.bigfloat (← s.toDecimal))
  | .complex => .ok (complex (scalar s) zero)
  | .quaternion => .ok (quaternion (scalar s) zero zero zero)

/-- A number represented at a kind that is not smaller than its own. -/
def promote (n : Number) (kind : Kind) : Except Fault Number :=
  if n.kind = kind then .ok n
  else if kind.rank < n.kind.rank then .error (.demotion n.kind kind)
  else
    match n with
    | scalar s => promoteScalar s kind
    | complex re im => .ok (quaternion re im zero zero)
    | quaternion .. => .ok n

end Number

end TowerLisp
