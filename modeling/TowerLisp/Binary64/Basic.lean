import TowerLisp.Text.Numeral

/-!
Double precision numbers. A finite one is a signed dyadic fraction; each
operation is carried out exactly and rounded once, a half to the even neighbour.
-/

namespace TowerLisp

/-- A double: `± mantissa * 2 ^ exponent`, an infinity, or no number at all. -/
inductive Binary64 where
  | finite (negative : Bool) (mantissa : Nat) (exponent : Int)
  | infinite (negative : Bool)
  | nan
deriving DecidableEq, Repr

namespace Binary64

/-- The exponent of the smallest positive double. -/
def leastExponent : Int := -1074

/-- The exponent of the largest doubles. -/
def greatestExponent : Int := 971

/-- The number of bits of a full mantissa. -/
def mantissaBits : Nat := 53

def zero (negative : Bool) : Binary64 :=
  finite negative 0 leastExponent

def one : Binary64 :=
  finite false (Nat.pow 2 52) (-52)

def isFinite : Binary64 → Bool
  | finite .. => true
  | _ => false

def isZero : Binary64 → Bool
  | finite _ m _ => m == 0
  | _ => false

/-- Numbers below zero, and negative zero. -/
def isNegative : Binary64 → Bool
  | finite s _ _ => s
  | infinite s => s
  | nan => false

/-- Numerator and denominator of `n / d / 2 ^ e`. -/
def scaled (n d : Nat) (e : Int) : Nat × Nat :=
  if e < 0 then (n * Nat.pow 2 (-e).toNat, d) else (n, d * Nat.pow 2 e.toNat)

/-- The exponent at which `n / d` fills a mantissa, or the least exponent. -/
def exponentOf (n d : Nat) : Int :=
  let e : Int := n.log2 - d.log2 - (mantissaBits - 1 : Nat)
  let (n, d) := scaled n d e
  max leastExponent (if n < d * Nat.pow 2 (mantissaBits - 1) then e - 1 else e)

/-- The double nearest to `± n / d`; past the largest double, an infinity. -/
def ofRatio (negative : Bool) (n d : Nat) : Binary64 :=
  if n = 0 then zero negative
  else
    let e := exponentOf n d
    let (n, d) := scaled n d e
    let m := Digits.divNearest n d
    let (m, e) :=
      if m = Nat.pow 2 mantissaBits then (Nat.pow 2 (mantissaBits - 1), e + 1) else (m, e)
    if greatestExponent < e then infinite negative else finite negative m e

/-- The double nearest to `± m * 2 ^ e`. -/
def ofDyadic (negative : Bool) (m : Nat) (e : Int) : Binary64 :=
  if e < 0 then ofRatio negative m (Nat.pow 2 (-e).toNat)
  else ofRatio negative (m * Nat.pow 2 e.toNat) 1

def ofRat (q : Rat) : Binary64 :=
  ofRatio (q.num < 0) q.num.natAbs q.den

def ofInt (n : Int) : Binary64 :=
  ofRatio (n < 0) n.natAbs 1

/-- The double nearest to a decimal numeral. Numerals far outside the range are
not expanded. -/
def ofDecimal (negative : Bool) (coefficient : Nat) (exponent : Int) : Binary64 :=
  let magnitude : Int := Digits.count coefficient + exponent
  if coefficient = 0 || magnitude < -330 then zero negative
  else if 330 < magnitude then infinite negative
  else if exponent < 0 then ofRatio negative coefficient (Nat.pow 10 (-exponent).toNat)
  else ofRatio negative (coefficient * Nat.pow 10 exponent.toNat) 1

/-- A mantissa with its sign. -/
def signed (negative : Bool) (m : Nat) : Int :=
  if negative then -(m : Int) else m

/-- The exact value of a finite double. -/
def toRat? : Binary64 → Option Rat
  | finite s m e =>
    some (if e < 0 then mkRat (signed s m) (Nat.pow 2 (-e).toNat)
      else mkRat (signed s m * (Nat.pow 2 e.toNat : Nat)) 1)
  | _ => none

/-- The mantissas of two finite doubles at their smaller exponent. -/
def align (m : Nat) (e : Int) (n : Nat) (f : Int) : Nat × Nat × Int :=
  let g := min e f
  (m * Nat.pow 2 (e - g).toNat, n * Nat.pow 2 (f - g).toNat, g)

def neg : Binary64 → Binary64
  | finite s m e => finite (!s) m e
  | infinite s => infinite (!s)
  | nan => nan

def abs : Binary64 → Binary64
  | finite _ m e => finite false m e
  | infinite _ => infinite false
  | nan => nan

def add : Binary64 → Binary64 → Binary64
  | finite s m e, finite t n f =>
    let (m, n, g) := align m e n f
    let sum := signed s m + signed t n
    if sum = 0 then zero (s && t) else ofDyadic (sum < 0) sum.natAbs g
  | nan, _ => nan
  | _, nan => nan
  | infinite s, infinite t => if s = t then infinite s else nan
  | infinite s, _ => infinite s
  | _, infinite t => infinite t

def sub (x y : Binary64) : Binary64 :=
  x.add y.neg

def mul : Binary64 → Binary64 → Binary64
  | finite s m e, finite t n f => ofDyadic (s != t) (m * n) (e + f)
  | nan, _ => nan
  | _, nan => nan
  | x, y =>
    if x.isZero || y.isZero then nan else infinite (x.isNegative != y.isNegative)

def div : Binary64 → Binary64 → Binary64
  | finite s m e, finite t n f =>
    if n = 0 then (if m = 0 then nan else infinite (s != t))
    else
      let (m, n, _) := align m e n f
      ofRatio (s != t) m n
  | nan, _ => nan
  | _, nan => nan
  | infinite _, infinite _ => nan
  | infinite s, y => infinite (s != y.isNegative)
  | x, infinite t => zero (x.isNegative != t)

/-- The remainder of a division whose quotient is cut off toward zero. It is
exact and has the sign of `x`. -/
def remainder : Binary64 → Binary64 → Binary64
  | finite s m e, finite _ n f =>
    if n = 0 then nan
    else
      let (m, n, g) := align m e n f
      ofDyadic s (m % n) g
  | finite s m e, infinite _ => finite s m e
  | _, _ => nan

/-- The remainder of a division whose quotient is rounded down. It has the sign
of `y`, zero included. -/
def floorMod (x y : Binary64) : Binary64 :=
  let r := remainder x y
  if r.isZero then zero y.isNegative
  else if r.isNegative != y.isNegative then r.add y
  else r

/-- The square root of a number that is not negative. The integer root is taken
with spare bits, and a further half stands for what was cut off. -/
def sqrt : Binary64 → Binary64
  | finite s m e =>
    if m = 0 then finite s m e
    else if s then nan
    else
      let spare := 120 + (e % 2).toNat
      let radicand := m * Nat.pow 2 spare
      let root := radicand.sqrt
      let tail := if root * root = radicand then 0 else 1
      ofDyadic false (2 * root + tail) ((e - spare) / 2 - 1)
  | infinite s => if s then nan else infinite s
  | nan => nan

/-- The order of two doubles; a value that is no number has no order. -/
def compare? : Binary64 → Binary64 → Option Ordering
  | nan, _ => none
  | _, nan => none
  | finite s m e, finite t n f =>
    let (m, n, _) := align m e n f
    some (compare (signed s m) (signed t n))
  | infinite s, infinite t => some (compare (signed s 1) (signed t 1))
  | infinite s, finite .. => some (if s then .lt else .gt)
  | finite .., infinite t => some (if t then .gt else .lt)

/-- Finite values without a fractional part. -/
def isInteger (x : Binary64) : Bool :=
  match x.toRat? with
  | some q => q.den == 1
  | none => false

/-- The word that encodes a double. -/
def toBits : Binary64 → UInt64
  | finite s m e =>
    let magnitude : Nat :=
      if m < Nat.pow 2 52 then m
      else (e - leastExponent + 1).toNat * Nat.pow 2 52 + (m - Nat.pow 2 52)
    UInt64.ofNat ((if s then Nat.pow 2 63 else 0) + magnitude)
  | infinite s => UInt64.ofNat ((if s then Nat.pow 2 63 else 0) + 2047 * Nat.pow 2 52)
  | nan => UInt64.ofNat (2047 * Nat.pow 2 52 + Nat.pow 2 51)

/-- The double that a word encodes. -/
def ofBits (bits : UInt64) : Binary64 :=
  let word := bits.toNat
  let negative := Nat.pow 2 63 ≤ word
  let field := word / Nat.pow 2 52 % 2048
  let fraction := word % Nat.pow 2 52
  if field = 2047 then (if fraction = 0 then infinite negative else nan)
  else if field = 0 then finite negative fraction leastExponent
  else finite negative (Nat.pow 2 52 + fraction) (leastExponent + (field - 1 : Nat))

/-- A power with any double as its exponent, as the machine computes it. -/
def pow (x y : Binary64) : Binary64 :=
  ofBits ((Float.ofBits x.toBits).pow (Float.ofBits y.toBits)).toBits

end Binary64

end TowerLisp
