import TowerLisp.File.Path
import TowerLisp.Number.Written
import TowerLisp.Value.Primitive

/-!
Values. Lists are chains of pairs that end in `nil`; a chain that ends in
anything else is improper. A string is a value of its own that can be walked like
a list of one-character strings. Procedures made by the program are known by
their number in the store.
-/

namespace TowerLisp

/-- The number of a procedure in the store. -/
abbrev ClosureId := Nat

/-- Values that a surrounding program may pass in; evaluation makes no truth
value of this kind. -/
inductive Foreign where
  | truth (value : Bool)
  | nothing
deriving DecidableEq, Repr

inductive Value where
  | nil
  | symbol (name : String)
  | string (text : String)
  | number (value : Number)
  | pair (head tail : Value)
  | vector (items : List Number)
  | closure (id : ClosureId)
  | primitive (procedure : Primitive)
  | path (path : Path)
  | foreign (value : Foreign)
deriving DecidableEq, Repr

namespace Value

def trueSymbol : Value := symbol "#t"

def falseSymbol : Value := symbol "#f"

def ofBool (b : Bool) : Value :=
  if b then trueSymbol else falseSymbol

def int (n : Int) : Value :=
  number (.ofInt n)

/-- Everything but `#f` and the empty list counts as true. -/
def isTrue : Value → Bool
  | nil => false
  | symbol name => name != "#f"
  | _ => true

/-- The elements of a chain of pairs, added in reverse to `reversed`, and the
value that ends the chain. -/
def spineLoop (reversed : List Value) : Value → List Value × Value
  | pair head tail => spineLoop (head :: reversed) tail
  | v => (reversed.reverse, v)

/-- The elements of a chain of pairs and the value that ends it. -/
def spine (v : Value) : List Value × Value :=
  spineLoop [] v

/-- The chain of pairs with some elements and an end. -/
def ofList (items : List Value) (tail : Value) : Value :=
  items.foldr pair tail

/-- A proper list. -/
def list (items : List Value) : Value :=
  ofList items nil

/-- The value that ends a chain of pairs. -/
def lastTail : Value → Value
  | pair _ tail => tail.lastTail
  | v => v

/-- The elements of a proper list. -/
def list? (v : Value) : Option (List Value) :=
  match v.spine with
  | (items, nil) => some items
  | _ => none

/-- The empty list and chains that end in it. -/
def isList (v : Value) : Bool :=
  match v.lastTail with
  | nil => true
  | _ => false

/-- Strings of one character. -/
def char? : Value → Option Char
  | string text =>
    match text.toList with
    | [c] => some c
    | _ => none
  | _ => none

/-- The list of the one-character strings of a string. -/
def chars (text : String) : Value :=
  list (text.toList.map fun c => string (String.singleton c))

/-- The text of a string, or of a list of one-character strings that is not empty. -/
def text? : Value → Option String
  | string text => some text
  | pair head tail => do
    let items ← (pair head tail).list?
    let cs ← items.mapM char?
    return String.ofList cs
  | _ => none

/-- A pair. A string in front of a string makes one string of both; anything
else in front of a string is put before the list of its characters. -/
def cons : Value → Value → Value
  | string front, string text =>
    if front = "" then pair (string front) (chars text) else string (front ++ text)
  | v, string text => pair v (chars text)
  | v, tail => pair v tail

end Value

end TowerLisp
