import TowerLisp.Store.Basic
import TowerLisp.Text.Quoted

/-!
Values as text. `printed` is what can be read back: strings are quoted, lists
stand in parentheses and vectors in angle brackets. `shown` is what messages
hold, where a string stands without quotes. `display` is what a program prints:
strings and lists of characters are shown as they are.
-/

namespace TowerLisp

def Closure.text (c : Closure) : String :=
  let name := (c.name.filter (· != "")).elim "" (" " ++ ·)
  "#<closure" ++ name ++ " (" ++ " ".intercalate c.formals ++ ")>"

namespace Value

open Text (quoted)

/-- The text of a vector. -/
def vectorText (items : List Number) : Except Fault String := do
  return "<" ++ " ".intercalate (← items.mapM Number.text) ++ ">"

/-- The text of a value that is not a pair. -/
def atomText (store : Store) : Value → Except Fault String
  | nil => .ok "()"
  | symbol name => .ok name
  | string text => .ok (String.ofList (quoted text.toList))
  | number n => n.text
  | vector items => vectorText items
  | closure id => .ok ((store.closure? id).elim "" Closure.text)
  | primitive p => .ok ("#<primitive " ++ p.name ++ ">")
  | path p => .ok p.text
  | foreign (.truth b) => .ok (if b then "#t" else "#f")
  | foreign .nothing => .ok "()"
  | pair .. => .ok ""

mutual

/-- A value in its printed form. -/
def printed (store : Store) : Value → Except Fault String
  | pair head tail => do
    let first ← printed store head
    return (← printedTail store ("(" ++ first) tail) ++ ")"
  | v => atomText store v

/-- The printed form of the rest of a list, after `front`. -/
def printedTail (store : Store) (front : String) : Value → Except Fault String
  | nil => .ok front
  | pair head tail => do
    let next ← printed store head
    printedTail store (front ++ " " ++ next) tail
  | v => do return front ++ " . " ++ (← atomText store v)

end

/-- A value as it stands in a message. -/
def shown (store : Store) : Value → Except Fault String
  | string text => .ok text
  | foreign (.truth b) => .ok (if b then "True" else "False")
  | foreign .nothing => .ok "None"
  | v => v.printed store

/-- A value as a program prints it. -/
def display (store : Store) (v : Value) : Except Fault String :=
  match v.text? with
  | some text => .ok text
  | none => v.printed store

/-- Whether a value nests at most `limit` deep. The length of a list does not matter. -/
def nestsWithin : Value → (limit : Nat) → Bool
  | pair head tail, limit + 1 => head.nestsWithin limit && tail.nestsWithin (limit + 1)
  | pair .., 0 => false
  | _, _ => true

/-- The printed form of a value that does not nest too deep. -/
def printedWithin (limit : Nat) (store : Store) (v : Value) : Except Fault String :=
  if v.nestsWithin limit then v.printed store else .error .tooDeep

/-- A value as a program prints it, if it does not nest too deep. -/
def displayWithin (limit : Nat) (store : Store) (v : Value) : Except Fault String :=
  match v.text? with
  | some text => .ok text
  | none => v.printedWithin limit store

/-- A fault of type that shows a value. -/
def mistyped {α : Type} (store : Store) (issue : String → TypeIssue) (v : Value) :
    Except Fault α := do
  .error (.mistyped (issue (← v.shown store)))

/-- The number that a value is. -/
def asNumber (store : Store) : Value → Except Fault Number
  | number n => .ok n
  | v => v.mistyped store .expectedNumber

/-- The number that an operand of a procedure is. -/
def asOperand (store : Store) (procedure : String) : Value → Except Fault Number
  | number n => .ok n
  | v => v.mistyped store (.operand procedure)

/-- The first element of a list, or the first character of a string. -/
def first (store : Store) : Value → Except Fault Value
  | pair head _ => .ok head
  | string text =>
    match text.toList with
    | c :: _ => .ok (string (String.singleton c))
    | [] => .error (.mistyped .headOfEmptyString)
  | v => v.mistyped store .head

/-- A list or a string without its first element. -/
def rest (store : Store) : Value → Except Fault Value
  | pair _ tail => .ok tail
  | string text =>
    match text.toList with
    | _ :: cs => .ok (string (String.ofList cs))
    | [] => .error (.mistyped .tailOfEmptyString)
  | v => v.mistyped store .tail

/-- The number of elements of a proper list or of characters of a string. -/
def length (store : Store) (v : Value) : Except Fault Nat :=
  match v with
  | nil => .ok 0
  | string text => .ok text.length
  | pair .. =>
    match v.list? with
    | some items => .ok items.length
    | none => v.mistyped store .lengthOfImproper
  | _ => v.mistyped store .length

end Value

end TowerLisp
