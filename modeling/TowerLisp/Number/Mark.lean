import TowerLisp.Number.Basic

/-!
Marks of numbers. A decimal that is no number cannot be compared with anything, not
even with a decimal computed in the same way, but it is still the same as itself.
Marks tell which ones are the same: each gets a mark of its own when it has been
computed, and a number with components, or a vector, gets one for the whole.
-/

namespace TowerLisp.Number

/-- The marks in a number, from left to right. -/
def marks : Number → List Mark
  | scalar (.bigfloat (.nan mark)) => [mark]
  | scalar _ => []
  | complex re im => re.marks ++ im.marks
  | quaternion re i j k => re.marks ++ i.marks ++ j.marks ++ k.marks

/-- Changes the marks in a number. -/
def mapMarks (f : Mark → Mark) : Number → Number
  | scalar (.bigfloat (.nan mark)) => scalar (.bigfloat (.nan (f mark)))
  | scalar s => scalar s
  | complex re im => complex (re.mapMarks f) (im.mapMarks f)
  | quaternion re i j k => quaternion (re.mapMarks f) (i.mapMarks f) (j.mapMarks f) (k.mapMarks f)

/-- A number with the given mark for the whole. -/
def heldBy (holder : Nat) (n : Number) : Number :=
  n.mapMarks ({ · with holder })

/-- A number as a new whole. -/
def detached (n : Number) : Number :=
  n.heldBy 0

/-- A component by itself. -/
def released : Number → Number
  | scalar s => (scalar s).detached
  | n => n

/-- Gives marks of their own, from `next` on, to the parts that have none, and the
next mark after them. -/
def fillOwn (next : Nat) : Number → Number × Nat
  | scalar (.bigfloat (.nan mark)) =>
    if mark.own = 0 then (scalar (.bigfloat (.nan { mark with own := next })), next + 1)
    else (scalar (.bigfloat (.nan mark)), next)
  | scalar s => (scalar s, next)
  | complex re im =>
    let (re, next) := re.fillOwn next
    let (im, next) := im.fillOwn next
    (complex re im, next)
  | quaternion re i j k =>
    let (re, next) := re.fillOwn next
    let (i, next) := i.fillOwn next
    let (j, next) := j.fillOwn next
    let (k, next) := k.fillOwn next
    (quaternion re i j k, next)

/-- Marks that are lacking. A scalar needs no mark for the whole. -/
def lacksMarks (n : Number) : Bool :=
  n.marks.any fun mark => mark.own = 0 || !n.isScalar && mark.holder = 0

/-- Gives the marks that are lacking, from `next` on, and the next mark after them. -/
def fillMarks (next : Nat) (n : Number) : Number × Nat :=
  let (n, next) := n.fillOwn next
  if n.lacksMarks then (n.heldBy next, next + 1) else (n, next)

/-- One and the same number that cannot be compared. -/
def isSame (a b : Number) : Bool :=
  a.marks.any (·.own ≠ 0) && a = b

/-- A number in which nothing can be marked is the same only by its value. -/
theorem isSame_eq_false {a : Number} (h : a.marks = []) (b : Number) : a.isSame b = false := by
  simp [isSame, h]

end TowerLisp.Number
