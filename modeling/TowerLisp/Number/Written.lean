import TowerLisp.Number.Compare

/-!
The text of a number, as it is printed and read back.
-/

namespace TowerLisp

/-- The digits of an integer; one with too many digits has no text. -/
def integerText (n : Int) : Except Fault String :=
  if Digits.writable n then .ok n.repr else .error (.breakdown .unrepresentable)

def Scalar.text : Scalar → Except Fault String
  | int v => integerText v
  | bigint v => integerText v
  | rational q => do return (← integerText q.num) ++ "/" ++ (← integerText q.den)
  | float x => .ok x.text
  | bigfloat d => .ok d.text

namespace Number

/-- A component with its sign and its unit. A zero is left out unless `showZero`,
and a one is shown by its unit alone. -/
def termText (text : Number → Except Fault String) (value : Number) (unit : String)
    (showZero : Bool) : Except Fault String := do
  if value.isZero then return if showZero then "+0" ++ unit else ""
  let positive ← value.gt value.zeroLike
  let magnitude ← if positive then pure value else value.neg
  let sign := if positive then "+" else "-"
  if ← magnitude.equal one then return sign ++ unit
  return sign ++ (← text magnitude) ++ unit

def textWithin : Nat → Number → Except Fault String
  | _, scalar s => s.text
  | 0, _ => tooNested
  | height + 1, complex re im => do
    if im.isZero then textWithin height re
    else return (← textWithin height re) ++ (← termText (textWithin height) im "i" false)
  | height + 1, quaternion re i j k => do
    let real ← textWithin height re
    let iTerm ← termText (textWithin height) i "i" true
    let jTerm ← termText (textWithin height) j "j" true
    let kTerm ← termText (textWithin height) k "k" true
    return real ++ iTerm ++ jTerm ++ kTerm

/-- The text of a number. -/
def text (n : Number) : Except Fault String :=
  textWithin n.height n

/-- A fault that shows a number. -/
def faultShowing {α : Type} (fault : String → Fault) (n : Number) : Except Fault α := do
  .error (fault (← n.text))

/-- The scalar that a real number is. -/
def real : Number → Except Fault Scalar
  | scalar s => .ok s
  | n => n.faultShowing fun got => .mistyped (.expectedReal got)

end Number

end TowerLisp
