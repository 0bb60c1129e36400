import TowerLisp.Number.Compare
import TowerLisp.Number.Mark
import TowerLisp.Value.Basic

/-!
Structural equality. Numbers are equal by value, vectors element by element, and
values of different sorts never are. A procedure equals only itself. What is one
and the same is equal, also if it cannot be compared.
-/

namespace TowerLisp.Value

/-- All elements are equal. Each pair is compared, whatever the others give. -/
def vectorEqual : List Number → List Number → Except Fault Bool
  | a :: as, b :: bs => do
    let first ← a.equal b
    let others ← vectorEqual as bs
    return first && others
  | _, _ => .ok true

/-- Gives marks of their own to elements that have none. -/
def fillOwnEach (next : Nat) : List Number → List Number × Nat
  | [] => ([], next)
  | n :: rest =>
    let (n, next) := n.fillOwn next
    let (rest, next) := fillOwnEach next rest
    (n :: rest, next)

/-- Numbers and vectors that have been computed and lack marks. -/
def lacksMarks : Value → Bool
  | number n => n.lacksMarks
  | vector items => items.any (·.marks.any fun mark => mark.own = 0 || mark.holder = 0)
  | _ => false

/-- Gives the marks that a value lacks, from `next` on, and the next mark after them. -/
def fillMarks (next : Nat) : Value → Value × Nat
  | number n =>
    let (n, next) := n.fillMarks next
    (number n, next)
  | vector items =>
    let (items, next) := fillOwnEach next items
    (vector (items.map (·.heldBy next)), next + 1)
  | v => (v, next)

/-- One and the same vector with an element that cannot be compared. -/
def isSameVector (as bs : List Number) : Bool :=
  as.any (·.marks.any (·.own ≠ 0)) && as = bs

def equal : Value → Value → Except Fault Bool
  | number a, number b => if a.isSame b then .ok true else a.equal b
  | pair a as, pair b bs => do if ← equal a b then equal as bs else return false
  | vector as, vector bs =>
    if isSameVector as bs then .ok true
    else if as.length = bs.length then vectorEqual as bs
    else .ok false
  | nil, nil => .ok true
  | symbol a, symbol b => .ok (a == b)
  | string a, string b => .ok (a == b)
  | closure a, closure b => .ok (a == b)
  | primitive a, primitive b => .ok (a == b)
  | path a, path b => .ok (a == b)
  | foreign a, foreign b => .ok (a == b)
  | _, _ => .ok false

end TowerLisp.Value
