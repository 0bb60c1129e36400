/-!
The kinds of number, in the order of promotion: an operation on two numbers is
carried out at the larger of their kinds.
-/

namespace TowerLisp

inductive Kind where
  | int
  | bigint
  | rational
  | float
  | bigfloat
  | complex
  | quaternion
deriving DecidableEq, Repr

namespace Kind

/-- The place of a kind in the order of promotion. -/
def rank : Kind → Nat
  | int => 0
  | bigint => 1
  | rational => 2
  | float => 3
  | bigfloat => 4
  | complex => 5
  | quaternion => 6

/-- The larger of two kinds. -/
def join (a b : Kind) : Kind :=
  if a.rank ≤ b.rank then b else a

/-- The name of a kind in running text. -/
def name : Kind → String
  | int => "int"
  | bigint => "bigint"
  | rational => "rational"
  | float => "float"
  | bigfloat => "bigfloat"
  | complex => "complex"
  | quaternion => "quaternion"

/-- The name of a kind as a label. -/
def label : Kind → String
  | int => "INT"
  | bigint => "BIGINT"
  | rational => "RATIONAL"
  | float => "FLOAT"
  | bigfloat => "BIGFLOAT"
  | complex => "COMPLEX"
  | quaternion => "QUATERNION"

theorem rank_join (a b : Kind) : (join a b).rank = max a.rank b.rank := by
  unfold join
  split <;> omega

end Kind

end TowerLisp
