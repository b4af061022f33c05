import PolicyDecision.Decimal.Shortest
import PolicyDecision.Fault

/-!
# PolicyDecision.Operator.Arithmetic

Arithmetic on numbers.

Two signed words give an integer as long as the exact result is a signed word; everything else is
computed on doubles, and a result that is not finite is an error.

* `floatRemainder`: the exact remainder of two doubles, with the sign of the dividend.
* `Number.add`, `subtract`, `multiply`, `divide`, `modulo`, `negate`.
-/

namespace PolicyDecision

/-- The range of a signed word. -/
def isWord (n : Int) : Bool := -0x8000000000000000 ≤ n && n < 0x8000000000000000

/-- The exact remainder of truncated division. With `e` the lesser exponent both operands are
whole multiples of `2^e`, and so is the remainder, which is less than the divisor. -/
def floatRemainder (x y : Float) : Float :=
  if !x.isFinite || y.isNaN || y == 0 then 0 / 0
  else if !y.isFinite then x
  else
    let a := Decimal.Binary.ofBits x.toBits
    let b := Decimal.Binary.ofBits y.toBits
    let e := min a.exponent b.exponent
    let rest := a.mantissa <<< (a.exponent - e).toNat % b.mantissa <<< (b.exponent - e).toNat
    let r := (Float.ofNat rest).scaleB e
    if a.negative then -r else r

/-- A double as a value; it has to be finite. -/
def Val.ofFloat (f : Float) : Val :=
  if f.isFinite then .defined (.ofFloat f) else .fault (.notFinite f)

def Val.ofInt (n : Int) : Val := .defined (.ofInt n)

namespace Number

/-- The exact result where both operands and the result are signed words, the rounded one
otherwise. -/
def combine (exact : Int → Int → Int) (rounded : Float → Float → Float) (a b : Number) : Val :=
  match a.int64?, b.int64? with
  | some x, some y =>
    if isWord (exact x y) then .ofInt (exact x y) else .ofFloat (rounded a.toFloat b.toFloat)
  | _, _ => .ofFloat (rounded a.toFloat b.toFloat)

def add (a b : Number) : Val := combine (· + ·) (· + ·) a b

def subtract (a b : Number) : Val := combine (· - ·) (· - ·) a b

def multiply (a b : Number) : Val := combine (· * ·) (· * ·) a b

def isZero (n : Number) : Bool := n.toFloat == 0

/-- Division is exact where the divisor goes into the dividend. -/
def divide (a b : Number) : Val :=
  if b.isZero then .fault .divisionByZero
  else
    match a.int64?, b.int64? with
    | some x, some y =>
      if x.tmod y == 0 && isWord (x.tdiv y) then .ofInt (x.tdiv y)
      else .ofFloat (a.toFloat / b.toFloat)
    | _, _ => .ofFloat (a.toFloat / b.toFloat)

/-- The remainder of truncated division. The pair whose quotient is no signed word is computed on
doubles. -/
def modulo (a b : Number) : Val :=
  if b.isZero then .fault .divisionByZero
  else
    match a.int64?, b.int64? with
    | some x, some y =>
      if isWord (x.tdiv y) then .ofInt (x.tmod y)
      else .ofFloat (floatRemainder a.toFloat b.toFloat)
    | _, _ => .ofFloat (floatRemainder a.toFloat b.toFloat)

def negate (a : Number) : Val :=
  match a.int64? with
  | some x => if isWord (-x) then .ofInt (-x) else .ofFloat (-a.toFloat)
  | none => .ofFloat (-a.toFloat)

/-- The order of two numbers: exact for two signed words, through doubles otherwise. -/
def compare? (a b : Number) : Option Ordering :=
  match a.int64?, b.int64? with
  | some x, some y => some (compare x y)
  | _, _ =>
    let x := a.toFloat
    let y := b.toFloat
    if x < y then some .lt else if x == y then some .eq else if x > y then some .gt else none

end Number
end PolicyDecision
