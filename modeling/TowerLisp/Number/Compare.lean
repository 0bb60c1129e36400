import TowerLisp.Number.Arith

/-!
Order and equality. Scalars are compared at the join of their kinds, other
numbers by the squares of their magnitudes. Equality goes by value, whatever the
representation, and component by component.
-/

namespace TowerLisp

namespace Scalar

def compareRat (x y : Rat) : Ordering :=
  if x.blt y then .lt else if y.blt x then .gt else .eq

/-- The order of two scalars. A double that is no number counts as equal to
everything; a decimal that is none cannot be compared. -/
def compare (a b : Scalar) : Except Fault Ordering :=
  match a.int?, b.int? with
  | some x, some y => .ok (Ord.compare x y)
  | _, _ =>
    match a.join b with
    | .float => do
      let x ← a.toBinary64
      let y ← b.toBinary64
      return (x.compare? y).getD .eq
    | .bigfloat => do
      let x ← a.toDecimal
      let y ← b.toDecimal
      (x.compare? y).elim (.error (.breakdown .invalidDecimal)) .ok
    | _ => do return compareRat (← a.toRat) (← b.toRat)

end Scalar

namespace Number

/-- The order of two squared magnitudes. A magnitude that is not a scalar has no
order. -/
def compareMagnitudes : Number → Number → Except Fault Ordering
  | scalar s, scalar t => s.compare t
  | _, _ => .error (.breakdown .unordered)

def compare : Number → Number → Except Fault Ordering
  | scalar s, scalar t => s.compare t
  | a, b => do compareMagnitudes (← a.normSquared) (← b.normSquared)

def lt (a b : Number) : Except Fault Bool := do
  return (← a.compare b) == .lt

def gt (a b : Number) : Except Fault Bool := do
  return (← a.compare b) == .gt

/-- All pairs are equal; the first that is not ends the comparison. -/
def allEqual (equal : Number → Number → Except Fault Bool) :
    List (Number × Number) → Except Fault Bool
  | [] => .ok true
  | (a, b) :: rest => do if ← equal a b then allEqual equal rest else return false

def equalWithin : Nat → Number → Number → Except Fault Bool
  | _, scalar s, scalar t => do return (← s.compare t) == .eq
  | 0, _, _ => tooNested
  | height + 1, a, b =>
    if needsQuaternion a b then
      let (a₀, a₁, a₂, a₃) := a.asQuaternion
      let (b₀, b₁, b₂, b₃) := b.asQuaternion
      allEqual (equalWithin height) [(a₀, b₀), (a₁, b₁), (a₂, b₂), (a₃, b₃)]
    else
      let (a₀, a₁) := a.asComplex
      let (b₀, b₁) := b.asComplex
      allEqual (equalWithin height) [(a₀, b₀), (a₁, b₁)]

/-- Equality by value. -/
def equal (a b : Number) : Except Fault Bool :=
  equalWithin (jointHeight a b) a b

end Number

end TowerLisp
