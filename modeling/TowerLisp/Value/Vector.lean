import TowerLisp.Value.Printer

/-!
Vectors of numbers: sums and differences of vectors of one size, multiples and
quotients by a number or element by element.
-/

namespace TowerLisp.Vector

/-- The vector of some values, which have to be numbers. -/
def ofValues (store : Store) : List Value → Except Fault (List Number)
  | [] => .ok []
  | .number n :: rest => do return n :: (← ofValues store rest)
  | v :: _ => v.mistyped store .vectorElement

/-- Combines vectors element by element. -/
def zipWithM (op : Number → Number → Except Fault Number) :
    List Number → List Number → Except Fault (List Number)
  | a :: as, b :: bs => do
    let first ← op a b
    return first :: (← zipWithM op as bs)
  | _, _ => .ok []

/-- Combines vectors of one size; `verb` says what is done. -/
def combine (op : Number → Number → Except Fault Number) (verb : String)
    (as bs : List Number) : Except Fault (List Number) :=
  if as.length = bs.length then zipWithM op as bs
  else .error (.mistyped (.vectorSizes verb as.length bs.length))

def add (as bs : List Number) : Except Fault (List Number) :=
  combine Number.add "add" as bs

def sub (as bs : List Number) : Except Fault (List Number) :=
  combine Number.sub "subtract" as bs

/-- Combines vectors of which one may have a single element, which then goes with
each element of the other one. -/
def stretch (op : Number → Number → Except Fault Number) :
    List Number → List Number → Except Fault (List Number)
  | [a], bs => bs.mapM (op a)
  | as, [b] => as.mapM (op · b)
  | as, bs =>
    if as.length = bs.length then zipWithM op as bs else .error (.breakdown .unequalSizes)

/-- Combines a vector with a vector, or each element with a value, which has to be
a number. -/
def mapWith (store : Store) (op : Number → Number → Except Fault Number) (items : List Number)
    (operand : Value) : Except Fault (List Number) :=
  match operand with
  | .vector others => stretch op items others
  | operand => items.mapM fun n => do op n (← operand.asNumber store)

def scale (store : Store) (items : List Number) (factor : Value) : Except Fault (List Number) :=
  mapWith store Number.mul items factor

def divide (store : Store) (items : List Number) (divisor : Value) : Except Fault (List Number) :=
  mapWith store Number.div items divisor

end TowerLisp.Vector
