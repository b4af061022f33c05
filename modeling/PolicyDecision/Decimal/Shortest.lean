/-!
# PolicyDecision.Decimal.Shortest

The shortest decimal that reads back as a given double.

A positive finite double is `m * 2^q`. The reals that round to it form an interval around it,
closed when `m` is even. A decimal with `n` digits is a point of a grid of step `10^k`; if the
grid has a point in the interval, then one of the two neighbours of the double is such a point,
so it is enough to test these two for `n = 1, 2, …, 17`.

* `Binary`: sign, mantissa and exponent of a finite double.
* `shortest`: the digits and the exponent of the first of them.
-/

namespace PolicyDecision
namespace Decimal

/-- The double `± mantissa * 2^exponent`; `tight` when the gap below it is half the gap above. -/
structure Binary where
  negative : Bool
  mantissa : Nat
  exponent : Int
  tight : Bool
deriving DecidableEq

def Binary.ofBits (bits : UInt64) : Binary :=
  let fraction : Nat := bits.toNat % 0x10000000000000
  let biased : Nat := bits.toNat / 0x10000000000000 % 0x800
  let negative := bits.toNat / 0x8000000000000000 % 2 == 1
  if biased = 0 then ⟨negative, fraction, -1074, false⟩
  else ⟨negative, 0x10000000000000 + fraction, (biased : Int) - 1075, fraction == 0 && biased > 1⟩

/-- A decimal `0.d₁d₂… * 10^(exponent + 1)`, that is `d₁.d₂… * 10^exponent`. -/
structure Digits where
  digits : List Char
  exponent : Int
deriving DecidableEq

/-- The number of decimal digits of a positive number. -/
def width (n : Nat) : Nat := (Nat.toDigits 10 n).length

/-- The exponent of the first decimal digit of the positive fraction `num / den`. -/
def leading (num den : Nat) : Int :=
  if num ≥ den then (width (num / den) : Int) - 1 else -(width (den / num) : Int)

/-- `a * 10^k` over `b` as a fraction of naturals. -/
def scaled (a b : Nat) (k : Int) : Nat × Nat :=
  if k ≥ 0 then (a * Nat.pow 10 k.toNat, b) else (a, b * Nat.pow 10 (-k).toNat)

/-- Drop the zeros at the end. -/
def trimZeros (digits : List Char) : List Char :=
  (digits.reverse.dropWhile (· == '0')).reverse

/-- The decimal `count * 10^k` by its digits. -/
def ofGrid (count : Nat) (k : Int) : Digits :=
  let digits := Nat.toDigits 10 count
  ⟨trimZeros digits, k + digits.length - 1⟩

/-- The interval of a positive double, with its ends and the double itself in quarters of `2^q`. -/
structure Interval where
  low : Nat
  value : Nat
  high : Nat
  /-- Denominator common to the three. -/
  den : Nat
  closed : Bool

def Binary.interval (b : Binary) : Interval :=
  let up := (b.exponent - 2).toNat
  let low := if b.tight then 4 * b.mantissa - 1 else 4 * b.mantissa - 2
  ⟨low <<< up, (4 * b.mantissa) <<< up, (4 * b.mantissa + 2) <<< up,
    1 <<< (2 - b.exponent).toNat, b.mantissa % 2 == 0⟩

/-- Whether `count * 10^k` lies in the interval. -/
def Interval.holds (i : Interval) (count : Nat) (k : Int) : Bool :=
  let (a, b) := scaled count 1 k
  let x := a * i.den
  if i.closed then i.low * b ≤ x && x ≤ i.high * b else i.low * b < x && x < i.high * b

/-- The neighbour of the double on the grid of step `10^k` that reads back, the nearer of two; a
tie goes to the even one. -/
def Interval.neighbour? (i : Interval) (k : Int) : Option Nat :=
  let (a, b) := scaled i.value i.den (-k)
  let floor := a / b
  match i.holds floor k && floor != 0, i.holds (floor + 1) k with
  | true, false => some floor
  | false, true => some (floor + 1)
  | false, false => none
  | true, true =>
    let rest := 2 * (a % b)
    if rest < b || (rest == b && floor % 2 == 0) then some floor else some (floor + 1)

/-- Try the grids of `n`, `n + 1`, … digits. -/
def Interval.search (i : Interval) (first : Int) : Nat → Nat → Option Digits
  | 0, _ => none
  | fuel + 1, n =>
    let k := first - n + 1
    match i.neighbour? k with
    | some count => some (ofGrid count k)
    | none => i.search first fuel (n + 1)

/-- The shortest digits of a positive double; zero has the digit `0`. -/
def shortest (b : Binary) : Digits :=
  if b.mantissa = 0 then ⟨['0'], 0⟩
  else
    let i := b.interval
    (i.search (leading i.value i.den) 17 1).getD ⟨['0'], 0⟩

end Decimal
end PolicyDecision
