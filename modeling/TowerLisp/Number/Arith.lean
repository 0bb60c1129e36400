import TowerLisp.Number.Convert

/-!
Sums, products and quotients. Two scalars are combined at the join of their
kinds; complex numbers and quaternions are combined through their components.
Components may themselves have components, so the operations carry a bound on
the height, which every step to the components lowers.
-/

namespace TowerLisp

/-- An operation on scalars, given for each representation. -/
structure ScalarOperation where
  onInt : Int → Int → Int
  onRat : Rat → Rat → Rat
  onDouble : Binary64 → Binary64 → Binary64
  onDecimal : Decimal → Decimal → Except Fault Decimal

namespace ScalarOperation

def add : ScalarOperation where
  onInt := Int.add
  onRat := Rat.add
  onDouble := Binary64.add
  onDecimal := Decimal.add .wide

def sub : ScalarOperation where
  onInt := Int.sub
  onRat := Rat.sub
  onDouble := Binary64.sub
  onDecimal := Decimal.sub .wide

def mul : ScalarOperation where
  onInt := Int.mul
  onRat := Rat.mul
  onDouble := Binary64.mul
  onDecimal := Decimal.mul .wide

/-- A result of two doubles. If finite operands leave the range of doubles, the
operation is done again on decimals. -/
def applyDouble (double : Binary64 → Binary64 → Binary64)
    (decimal : Decimal → Decimal → Except Fault Decimal) (x y : Binary64) :
    Except Fault Scalar :=
  let r := double x y
  if r.isFinite || !(x.isFinite && y.isFinite) then .ok (.float r)
  else do return .bigfloat (← decimal (.ofBinary64 x) (.ofBinary64 y))

def apply (op : ScalarOperation) (a b : Scalar) : Except Fault Scalar :=
  match a.int?, b.int? with
  | some x, some y => .ok (.ofInt (op.onInt x y))
  | _, _ =>
    match a.join b with
    | .float => do applyDouble op.onDouble op.onDecimal (← a.toBinary64) (← b.toBinary64)
    | .bigfloat => do return .bigfloat (← op.onDecimal (← a.toDecimal) (← b.toDecimal))
    | _ => do return .ofRat (op.onRat (← a.toRat) (← b.toRat))

end ScalarOperation

namespace Scalar

def divisionByZero {α : Type} : Except Fault α :=
  .error (.divisionByZero .quotient)

/-- A quotient; it is exact if both scalars are. -/
def div (a b : Scalar) : Except Fault Scalar :=
  match a.join b with
  | .float => do
    let x ← a.toBinary64
    let y ← b.toBinary64
    if y.isZero then divisionByZero
    else ScalarOperation.applyDouble Binary64.div (Decimal.div .wide) x y
  | .bigfloat => do
    let x ← a.toDecimal
    let y ← b.toDecimal
    if y.isZero then divisionByZero else return .bigfloat (← Decimal.div .wide x y)
  | _ => do
    let x ← a.toRat
    let y ← b.toRat
    if y.num = 0 then divisionByZero else return .ofRat (Rat.div x y)

/-- A change of sign. A decimal is rounded to twenty-eight digits by it. -/
def neg : Scalar → Except Fault Scalar
  | int v => .ok (ofInt (-v))
  | bigint v => .ok (ofInt (-v))
  | rational q => .ok (rational (Rat.neg q))
  | float x => .ok (float x.neg)
  | bigfloat d => do return bigfloat (← d.negate .narrow)

end Scalar

namespace Number

/-- The height of two numbers, which bounds the steps to their components. -/
def jointHeight (a b : Number) : Nat :=
  max a.height b.height

/-- What stands for a step past the bound; `jointHeight` rules it out. -/
def tooNested {α : Type} : Except Fault α :=
  .error .tooDeep

/-- Either number is a quaternion. -/
def needsQuaternion (a b : Number) : Bool :=
  a.kind = .quaternion || b.kind = .quaternion

/-- Combines numbers component by component. -/
def zipWithin (op : Scalar → Scalar → Except Fault Scalar) :
    Nat → Number → Number → Except Fault Number
  | _, scalar s, scalar t => do return scalar (← op s t)
  | 0, _, _ => tooNested
  | height + 1, a, b =>
    if needsQuaternion a b then do
      let (a₀, a₁, a₂, a₃) := a.asQuaternion
      let (b₀, b₁, b₂, b₃) := b.asQuaternion
      return quaternion (← zipWithin op height a₀ b₀) (← zipWithin op height a₁ b₁)
        (← zipWithin op height a₂ b₂) (← zipWithin op height a₃ b₃)
    else do
      let (a₀, a₁) := a.asComplex
      let (b₀, b₁) := b.asComplex
      return complex (← zipWithin op height a₀ b₀) (← zipWithin op height a₁ b₁)

def add (a b : Number) : Except Fault Number :=
  zipWithin ScalarOperation.add.apply (jointHeight a b) a b

def sub (a b : Number) : Except Fault Number :=
  zipWithin ScalarOperation.sub.apply (jointHeight a b) a b

/-- A sum of terms, each with the sign that precedes it. -/
def total (terms : List (Bool × Except Fault Number)) : Except Fault Number :=
  terms.foldlM (fun sum (plus, term) => do if plus then add sum (← term) else sub sum (← term)) zero

/-- The product of quaternions, by a product of their components. -/
def hamilton (mul : Number → Number → Except Fault Number) (a b : Number) :
    Except Fault Number := do
  let (a₀, a₁, a₂, a₃) := a.asQuaternion
  let (b₀, b₁, b₂, b₃) := b.asQuaternion
  return quaternion
    (← total [(true, mul a₀ b₀), (false, mul a₁ b₁), (false, mul a₂ b₂), (false, mul a₃ b₃)])
    (← total [(true, mul a₀ b₁), (true, mul a₁ b₀), (true, mul a₂ b₃), (false, mul a₃ b₂)])
    (← total [(true, mul a₀ b₂), (false, mul a₁ b₃), (true, mul a₂ b₀), (true, mul a₃ b₁)])
    (← total [(true, mul a₀ b₃), (true, mul a₁ b₂), (false, mul a₂ b₁), (true, mul a₃ b₀)])

def mulWithin : Nat → Number → Number → Except Fault Number
  | _, scalar s, scalar t => do return scalar (← ScalarOperation.mul.apply s t)
  | 0, _, _ => tooNested
  | height + 1, a, b =>
    if needsQuaternion a b then hamilton (mulWithin height) a b
    else do
      let (a₀, a₁) := a.asComplex
      let (b₀, b₁) := b.asComplex
      let re ← sub (← mulWithin height a₀ b₀) (← mulWithin height a₁ b₁)
      let im ← add (← mulWithin height a₀ b₁) (← mulWithin height a₁ b₀)
      return complex re im

def mul (a b : Number) : Except Fault Number :=
  mulWithin (jointHeight a b) a b

/-- The sum of the squares of the components. -/
def normSquared (n : Number) : Except Fault Number :=
  n.components.foldlM (fun sum c => do add sum (← mul c c)) zero

def neg : Number → Except Fault Number
  | scalar s => do return scalar (← s.neg)
  | complex re im => do return complex (← re.neg) (← im.neg)
  | quaternion re i j k => do
    return quaternion (← re.neg) (← i.neg) (← j.neg) (← k.neg)

def conjugate : Number → Except Fault Number
  | complex re im => do return complex re (← im.neg)
  | quaternion re i j k => do return quaternion re (← i.neg) (← j.neg) (← k.neg)
  | n => .ok n

/-- Quotients, through the squared norm of the divisor. -/
def divWithin : Nat → Number → Number → Except Fault Number
  | _, scalar s, scalar t => do return scalar (← s.div t)
  | 0, _, _ => tooNested
  | height + 1, a, b =>
    if needsQuaternion a b then do
      let (b₀, b₁, b₂, b₃) := b.asQuaternion
      let divisor := quaternion b₀ b₁ b₂ b₃
      let norm ← divisor.normSquared
      if norm.isZero then .error (.divisionByZero .quaternionQuotient)
      else
        let (p₀, p₁, p₂, p₃) := (← hamilton mul a (← divisor.conjugate)).asQuaternion
        return quaternion (← divWithin height p₀ norm) (← divWithin height p₁ norm)
          (← divWithin height p₂ norm) (← divWithin height p₃ norm)
    else do
      let (a₀, a₁) := a.asComplex
      let (b₀, b₁) := b.asComplex
      let norm ← (complex b₀ b₁).normSquared
      if norm.isZero then .error (.divisionByZero .complexQuotient)
      else
        let re ← add (← mul a₀ b₀) (← mul a₁ b₁)
        let im ← sub (← mul a₁ b₀) (← mul a₀ b₁)
        return complex (← divWithin height re norm) (← divWithin height im norm)

def div (a b : Number) : Except Fault Number :=
  divWithin (jointHeight a b) a b

end Number

end TowerLisp
