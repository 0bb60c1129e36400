import TowerLisp.Binary64.Basic

/-!
The text of a double: the fewest decimal digits that read back as the same
double, and of those the digits nearest to it. Exponents from -4 to 15 are
written out, others follow an `e` with a sign and two digits at least.
-/

namespace TowerLisp.Binary64

/-- The reals that round to a double, as multiples of one quarter of its last
place. Both ends belong to them if the mantissa is even. -/
structure Neighbourhood where
  value : Nat
  low : Nat
  high : Nat
  closed : Bool

def neighbourhood (m : Nat) (e : Int) : Neighbourhood where
  value := 4 * m
  low := if m = Nat.pow 2 52 && leastExponent < e then 4 * m - 1 else 4 * m - 2
  high := 4 * m + 2
  closed := m % 2 == 0

/-- The multiple of `unit` nearest to the value, if one of its two neighbours
among the multiples rounds to the double. All quantities are in steps of `scale`. -/
def Neighbourhood.nearestMultiple? (h : Neighbourhood) (scale unit : Nat) : Option Nat :=
  let value := h.value * scale
  let below := value / unit
  let inside (k : Nat) : Bool :=
    let x := k * unit
    if h.closed then h.low * scale ≤ x && x ≤ h.high * scale
    else h.low * scale < x && x < h.high * scale
  match inside below, inside (below + 1) with
  | true, true =>
    let rest := value - below * unit
    let up := unit < 2 * rest || (2 * rest == unit && below % 2 == 1)
    some (if up then below + 1 else below)
  | true, false => some below
  | false, true => some (below + 1)
  | false, false => none

/-- Looks for a decimal `d * 10 ^ s` that rounds to the double, from the coarsest
grid down. -/
def searchGrid (h : Neighbourhood) (e : Int) : Nat → Int → Nat × Int
  | 0, s => (0, s)
  | fuel + 1, s =>
    -- the value is `h.value * 2 ^ (e - 2)`
    let scale := Nat.pow 2 (e - 2).toNat * Nat.pow 10 (-s).toNat
    let unit := Nat.pow 2 (2 - e).toNat * Nat.pow 10 s.toNat
    match h.nearestMultiple? scale unit with
    | some d => (d, s)
    | none => searchGrid h e fuel (s - 1)

/-- Divides out the factors of ten of a number that has at most `fuel` digits. -/
def stripZeros : Nat → Nat → Int → Nat × Int
  | 0, d, s => (d, s)
  | fuel + 1, d, s => if d % 10 = 0 then stripZeros fuel (d / 10) (s + 1) else (d, s)

/-- Digits and exponent of the shortest decimal that reads back as `m * 2 ^ e`. -/
def shortest (m : Nat) (e : Int) : Nat × Int :=
  let bits : Int := m.log2 + 1 + e
  let (d, s) := searchGrid (neighbourhood m e) e 24 (bits * 30103 / 100000 + 1)
  stripZeros 24 d s

def zeroChars (n : Nat) : List Char :=
  List.replicate n '0'

/-- An exponent with its sign and two digits at least. -/
def exponentChars (e : Int) : List Char :=
  let digits := Nat.toDigits 10 e.natAbs
  'e' :: (if e < 0 then '-' else '+') :: zeroChars (2 - digits.length) ++ digits

/-- Writes `0.d₁d₂… * 10 ^ point`. -/
def layout (digits : List Char) (point : Int) : List Char :=
  if -4 < point && point ≤ 16 then
    if point ≤ 0 then '0' :: '.' :: zeroChars (-point).toNat ++ digits
    else if digits.length ≤ point.toNat then
      digits ++ zeroChars (point.toNat - digits.length) ++ ['.', '0']
    else digits.take point.toNat ++ '.' :: digits.drop point.toNat
  else
    match digits with
    | [] => exponentChars (point - 1)
    | [d] => d :: exponentChars (point - 1)
    | d :: rest => d :: '.' :: rest ++ exponentChars (point - 1)

def textChars : Binary64 → List Char
  | nan => "nan".toList
  | infinite s => (if s then "-inf" else "inf").toList
  | finite s m e =>
    let sign := if s then ['-'] else []
    if m = 0 then sign ++ "0.0".toList
    else
      let (d, exponent) := shortest m e
      let digits := Nat.toDigits 10 d
      sign ++ layout digits (digits.length + exponent)

/-- The text of a double. -/
def text (x : Binary64) : String :=
  String.ofList x.textChars

/-- The double that a text denotes: a numeral, or a word for an infinity or for
no number. Blanks may stand at its ends. -/
def parse? (cs : List Char) : Option Binary64 := do
  let cs ← Text.Numeral.dropUnderscores false (Text.trimWhile Text.isNumeralBlank cs)
  match Text.Numeral.parse? cs with
  | some n => some (ofDecimal n.negative n.coefficient n.exponent)
  | none =>
    let (negative, rest) := Text.Numeral.takeSign cs
    let word := String.ofList (rest.map Char.toLower)
    if word = "inf" || word = "infinity" then some (infinite negative)
    else if word = "nan" then some nan
    else none

end TowerLisp.Binary64
