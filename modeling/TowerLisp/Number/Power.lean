import TowerLisp.Number.Modulo

/-!
Powers. An integer exponent is reached by repeated squaring; any other exponent
goes through doubles.
-/

namespace TowerLisp.Number

/-- Repeated squaring: `result * factor ^ exponent`, for an exponent with at most
`bits` binary digits. -/
def powerLoop : (bits : Nat) → (result factor : Number) → (exponent : Nat) → Except Fault Number
  | 0, result, _, _ => .ok result
  | bits + 1, result, factor, exponent =>
    if exponent = 0 then .ok result
    else do
      let result ← if exponent % 2 = 1 then mul result factor else pure result
      let rest := exponent / 2
      let factor ← if rest = 0 then pure factor else mul factor factor
      powerLoop bits result factor rest

/-- A power with a natural exponent. -/
def powerNat (base : Number) (exponent : Nat) : Except Fault Number :=
  powerLoop (exponent.log2 + 1) base.oneLike base exponent

/-- A power with an integer exponent. -/
def powerInt (base : Number) (exponent : Int) : Except Fault Number := do
  let result ← base.powerNat exponent.natAbs
  if exponent < 0 then div base.oneLike result else return result

/-- The double of an operand of a power; one that is too large has no power. -/
def powerOperand (s : Scalar) : Except Fault Binary64 :=
  match s.toBinary64 with
  | .ok x => .ok x
  | .error _ => .error (.arithmetic .undefinedPower)

/-- A power of doubles. Finite operands whose power is not finite have none, and
neither does a result out of range. -/
def powerDouble (x y : Binary64) : Except Fault Number :=
  let r := x.pow y
  if r.isFinite then .ok (ofBinary64 r)
  else if x.isFinite && y.isFinite then .error (.arithmetic .undefinedPower)
  else .error (.arithmetic .powerOutOfRange)

def power (base exponent : Number) : Except Fault Number :=
  match exponent with
  | scalar e =>
    match e.int? with
    | some n => base.powerInt n
    | none =>
      match base with
      | scalar b => do powerDouble (← powerOperand b) (← powerOperand e)
      | _ => .error (.mistyped (.exponentNotInteger base.kind))
  | _ => exponent.faultShowing fun got => .mistyped (.exponentNotScalar got)

/-- The square root of the squared norm, as a double. -/
def magnitude (n : Number) : Except Fault Number := do
  return ofBinary64 (← (← (← n.normSquared).real).toBinary64).abs.sqrt

/-- The nearest number with doubles for its components. -/
def toInexact : Number → Except Fault Number
  | scalar s =>
    match s.toBinary64 with
    | .ok x => .ok (ofBinary64 x)
    | .error _ => (scalar s).faultShowing fun shown => .arithmetic (.outOfDoubleRange shown)
  | complex re im => do return complex (← re.toInexact) (← im.toInexact)
  | quaternion re i j k => do
    return quaternion (← re.toInexact) (← i.toInexact) (← j.toInexact) (← k.toInexact)

/-- The number with decimals for its components. -/
def toInexactBig : Number → Except Fault Number
  | scalar (.bigfloat d) => .ok (scalar (.bigfloat d))
  | scalar s => do ofDecimal (← s.toDecimal)
  | complex re im => do return complex (← re.toInexactBig) (← im.toInexactBig)
  | quaternion re i j k => do
    return quaternion (← re.toInexactBig) (← i.toInexactBig) (← j.toInexactBig)
      (← k.toInexactBig)

end TowerLisp.Number
