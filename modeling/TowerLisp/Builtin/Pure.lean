import TowerLisp.Builtin.Numeric

/-!
The procedures that only compute a value from their arguments.
-/

namespace TowerLisp.Builtin

open Value (ofBool)

/-- Empty lists and empty strings. -/
def isNull : Value → Bool
  | .nil => true
  | .string text => text == ""
  | _ => false

/-- Symbols that are not truth values. -/
def isSymbol : Value → Bool
  | .symbol name => name != "#t" && name != "#f"
  | _ => false

def isProcedure : Value → Bool
  | .closure _ => true
  | .primitive _ => true
  | _ => false

def isNumber : Value → Bool
  | .number _ => true
  | _ => false

def isString : Value → Bool
  | .string _ => true
  | _ => false

def stringToList (store : Store) : Value → Except Fault Value
  | .string text => .ok (.chars text)
  | v => v.mistyped store .stringToList

def listToString (store : Store) : Value → Except Fault Value
  | .nil => .ok (.string "")
  | v =>
    match v.text? with
    | some text => .ok (.string text)
    | none => v.mistyped store .listToString

def symbolToString : Value → Value
  | .symbol name => .string name
  | _ => .falseSymbol

def stringToSymbol : Value → Value
  | .string text => if text = "" then .falseSymbol else .symbol text
  | _ => .falseSymbol

/-- The texts between the commas of a text. -/
def splitByComma (store : Store) (v : Value) : Except Fault Value := do
  let text ← v.display store
  return .list ((text.toList.splitOn ',').map fun part => .string (String.ofList part))

/-- The value of a pure procedure, or `none` for the other procedures and for a
wrong number of arguments. -/
def compute? (store : Store) : Primitive → List Value → Option (Except Fault Value)
  | .add, args => some (sum store args)
  | .sub, args => some (difference store args)
  | .mul, args => some (product store args)
  | .div, args => some (quotient store args)
  | .mod, [a, b] => some (onNumbers store Number.mod a b)
  | .power, [a, b] => some (onNumbers store Number.power a b)
  | .less, [a, b] => some (testNumbers store Number.lt a b)
  | .greater, [a, b] => some (testNumbers store Number.gt a b)
  | .lessEqual, [a, b] => some (testNumbers store (negated Number.gt) a b)
  | .greaterEqual, [a, b] => some (testNumbers store (negated Number.lt) a b)
  | .equal, [a, b] => some (ofBool <$> a.equal b)
  | .eq, [a, b] => some (ofBool <$> a.equal b)
  | .toInexact, [v] => some (onNumber store Number.toInexact v)
  | .toInexactBig, [v] => some (onNumber store (fun n => Number.detached <$> n.toInexactBig) v)
  | .real, [v] => some (onNumber store (fun n => .ok n.realPart.released) v)
  | .imaginary, [v] => some (onNumber store (fun n => .ok n.imaginaryPart.released) v)
  | .magnitude, [v] => some (magnitude store v)
  | .floor, [v] => some (onNumber store Number.floor v)
  | .even, [v] => some (ofBool <$> isEven store "even?" v)
  | .odd, [v] => some ((fun even => ofBool !even) <$> isEven store "odd?" v)
  | .isNumber, [v] => some (.ok (ofBool (isNumber v)))
  | .not, [v] => some (.ok (ofBool !v.isTrue))
  | .bang, [v] => some (.ok (ofBool !v.isTrue))
  | .and, [a, b] => some (.ok (ofBool (a.isTrue && b.isTrue)))
  | .or, [a, b] => some (.ok (ofBool (a.isTrue || b.isTrue)))
  | .xor, [a, b] => some (.ok (ofBool (a.isTrue != b.isTrue)))
  | .cons, [a, b] => some (.ok (.cons a b))
  | .list, args => some (.ok (.list args))
  | .head, [v] => some (v.first store)
  | .car, [v] => some (v.first store)
  | .tail, [v] => some (v.rest store)
  | .cdr, [v] => some (v.rest store)
  | .length, [v] => some ((fun n => .int n) <$> v.length store)
  | .isNull, [v] => some (.ok (ofBool (isNull v)))
  | .isList, [v] => some (.ok (ofBool v.isList))
  | .isString, [v] => some (.ok (ofBool (isString v)))
  | .isSymbol, [v] => some (.ok (ofBool (isSymbol v)))
  | .isProcedure, [v] => some (.ok (ofBool (isProcedure v)))
  | .stringToList, [v] => some (stringToList store v)
  | .listToString, [v] => some (listToString store v)
  | .symbolToString, [v] => some (.ok (symbolToString v))
  | .stringToSymbol, [v] => some (.ok (stringToSymbol v))
  | .vector, args => some (makeVector store args)
  | .size, [v] => some ((fun items => .int items.length) <$> asVector "size" v)
  | .splitByComma, [v] => some (splitByComma store v)
  | _, _ => none

end TowerLisp.Builtin
