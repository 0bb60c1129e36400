import TowerLisp.Number.Power
import TowerLisp.Value.Equality
import TowerLisp.Value.Vector

/-!
Arithmetic procedures on values. Sums, differences and multiples also work on
vectors if the first operand is one.
-/

namespace TowerLisp.Builtin

open Value (ofBool)

/-- The vector that a further operand has to be. -/
def asVector (procedure : String) : Value → Except Fault (List Number)
  | .vector items => .ok items
  | _ => .error (.mistyped (.mixedVectors procedure))

/-- Combines numbers from left to right. -/
def foldNumbers (store : Store) (procedure : String)
    (op : Number → Number → Except Fault Number) : Number → List Value → Except Fault Number
  | acc, [] => .ok acc
  | acc, v :: rest => do
    let n ← v.asOperand store procedure
    foldNumbers store procedure op (← op acc n) rest

/-- Combines vectors from left to right. -/
def foldVectors (procedure : String)
    (op : List Number → List Number → Except Fault (List Number)) :
    List Number → List Value → Except Fault (List Number)
  | acc, [] => .ok acc
  | acc, v :: rest => do
    let items ← asVector procedure v
    foldVectors procedure op (← op acc items) rest

/-- Divides a vector by numbers from left to right. -/
def divideVector (store : Store) : List Number → List Value → Except Fault (List Number)
  | acc, [] => .ok acc
  | acc, v :: rest => do
    let n ← v.asOperand store "/"
    divideVector store (← Vector.divide store acc (.number n)) rest

def sum (store : Store) : List Value → Except Fault Value
  | .vector items :: rest => do return .vector (← foldVectors "+" Vector.add items rest)
  | args => do return .number (← foldNumbers store "+" Number.add .zero args)

def difference (store : Store) : List Value → Except Fault Value
  | [] => .ok (.number .zero)
  | [.vector items] => do return .vector (← Vector.scale store items (.int (-1)))
  | .vector items :: rest => do return .vector (← foldVectors "-" Vector.sub items rest)
  | [v] => do return .number (← (← v.asOperand store "-").neg)
  | v :: rest => do
    let first ← v.asOperand store "-"
    return .number (← foldNumbers store "-" Number.sub first rest)

def product (store : Store) : List Value → Except Fault Value
  | [.vector items, v] => do
    return .vector (← Vector.scale store items (.number (← v.asOperand store "*")))
  | .vector _ :: _ => .error (.arity .vectorProduct)
  | args => do return .number (← foldNumbers store "*" Number.mul .one args)

/-- A quotient from left to right; one operand is given back. -/
def quotient (store : Store) : List Value → Except Fault Value
  | [] => .error (.arity .emptyQuotient)
  | .vector items :: rest => do return .vector (← divideVector store items rest)
  | v :: rest => do
    let first ← v.asOperand store "/"
    return .number (← foldNumbers store "/" Number.div first rest)

/-- An operation on two numbers. -/
def onNumbers (store : Store) (op : Number → Number → Except Fault Number) (a b : Value) :
    Except Fault Value := do
  let x ← a.asNumber store
  let y ← b.asNumber store
  return .number (← op x y)

/-- A test of two numbers. -/
def testNumbers (store : Store) (test : Number → Number → Except Fault Bool) (a b : Value) :
    Except Fault Value := do
  let x ← a.asNumber store
  let y ← b.asNumber store
  return ofBool (← test x y)

/-- An operation on a number. -/
def onNumber (store : Store) (op : Number → Except Fault Number) (v : Value) :
    Except Fault Value := do
  return .number (← op (← v.asNumber store))

/-- The opposite of a test. -/
def negated (test : Number → Number → Except Fault Bool) (a b : Number) : Except Fault Bool := do
  return !(← test a b)

/-- A number leaves no remainder when it is divided by two. -/
def isEven (store : Store) (procedure : String) (v : Value) : Except Fault Bool := do
  return (← (← v.asOperand store procedure).mod (.ofInt 2)).isZero

/-- The vector of some numbers, which is a new whole. -/
def makeVector (store : Store) (args : List Value) : Except Fault Value := do
  return .vector ((← Vector.ofValues store args).map .detached)

/-- The magnitude of a number with components; a scalar is given back. -/
def magnitude (store : Store) (v : Value) : Except Fault Value := do
  let n ← v.asOperand store "complex-magnitude"
  if n.isScalar then return .number n else return .number (← n.magnitude)

end TowerLisp.Builtin
