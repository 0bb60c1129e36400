import TowerLisp.Number.Written

/-!
Floor, and the remainder of a division whose quotient is rounded down: the
remainder takes the sign of the divisor.
-/

namespace TowerLisp

namespace Scalar

/-- `x - y * ⌊x / y⌋` for a divisor that is not zero. -/
def floorModRat (x y : Rat) : Rat :=
  Rat.sub x (Rat.mul y (mkRat (Rat.div x y).floor 1))

/-- `x - y * ⌊x / y⌋`, where the quotient is rounded before it is cut down. -/
def floorModDecimal (x y : Decimal) : Except Fault Decimal := do
  let quotient ← Decimal.div .wide x y
  Decimal.sub .wide x (← Decimal.mul .wide y quotient.floor)

/-- `x - y * ⌊x / y⌋` of doubles. A divisor that is too small for a double is
refused. -/
def floorModDouble (x y : Binary64) : Except Fault Binary64 :=
  if y.isZero then .error (.breakdown .doubleDivisorVanished) else .ok (x.floorMod y)

/-- The remainder of scalars, of which the divisor is not zero. -/
def floorMod (a b : Scalar) : Except Fault Scalar :=
  match a.join b with
  | .float => do return .float (← floorModDouble (← a.toBinary64) (← b.toBinary64))
  | .bigfloat => do return .bigfloat (← floorModDecimal (← a.toDecimal) (← b.toDecimal))
  | _ => do return .ofRat (floorModRat (← a.toRat) (← b.toRat))

end Scalar

namespace Number

/-- The remainder of one component, which has to be real. -/
def floorModPart (divisor : Scalar) (n : Number) : Except Fault Number := do
  return scalar (← (← n.real).floorMod divisor)

/-- The remainder by a scalar divisor, in each component. -/
def mod (a b : Number) : Except Fault Number :=
  match b with
  | scalar divisor =>
    if divisor.isZero then .error (.divisionByZero .modulus)
    else
      match a with
      | scalar s => floorModPart divisor (scalar s)
      | complex re im => do
        return complex (← floorModPart divisor re) (← floorModPart divisor im)
      | quaternion re i j k => do
        return quaternion (← floorModPart divisor re) (← floorModPart divisor i)
          (← floorModPart divisor j) (← floorModPart divisor k)
  | _ => b.faultShowing fun got => .mistyped (.modulusNotScalar got)

/-- The greatest integer that is not above a real number. -/
def floor (n : Number) : Except Fault Number :=
  match n with
  | scalar (.float x) =>
    match x.toRat? with
    | some q => .ok (ofInt q.floor)
    | none => n.faultShowing fun shown => .arithmetic (.floorOfNonFinite shown)
  | scalar (.bigfloat d) => do return ofInt (← (Scalar.bigfloat d.floor).toRat).floor
  | scalar (.rational q) => .ok (ofInt q.floor)
  | scalar _ => .ok n
  | _ => n.faultShowing fun got => .mistyped (.floorNotReal got)

end Number

end TowerLisp
