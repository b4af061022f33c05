/-!
# PolicyDecision.Json.Number

The numbers of a JSON document.

* `Number`: an integer from `-2^63` up to `2^64 - 1`, or a double.
* `Number.ofInt`: an integer beyond that range becomes the nearest double.
* `Number.int64?`: the integer, where it fits a signed 64 bit word.
-/

namespace PolicyDecision

inductive Number where
  | integer (value : Int) (held : -0x8000000000000000 ≤ value ∧ value < 0x10000000000000000)
  | float (value : Float)

namespace Number

def ofInt (value : Int) : Number :=
  if held : -0x8000000000000000 ≤ value ∧ value < 0x10000000000000000 then .integer value held
  else .float (Float.ofInt value)

def ofNat (value : Nat) : Number := ofInt value

/-- The value of an integer that fits a signed 64 bit word. -/
def int64? : Number → Option Int
  | .integer value _ => if value < 0x8000000000000000 then some value else none
  | .float _ => none

/-- The value of an integer that is not negative. -/
def nat? : Number → Option Nat
  | .integer value _ => if 0 ≤ value then some value.toNat else none
  | .float _ => none

def toFloat : Number → Float
  | .integer value _ => Float.ofInt value
  | .float value => value

/-- Integers and doubles differ even where they denote the same number. -/
def beq : Number → Number → Bool
  | .integer a _, .integer b _ => a == b
  | .float a, .float b => a == b
  | _, _ => false

instance : BEq Number := ⟨beq⟩

/-- Equality by numeric value: exact for two signed words, through doubles otherwise. -/
def sameValue (a b : Number) : Bool :=
  match a.int64?, b.int64? with
  | some x, some y => x == y
  | _, _ => a.toFloat == b.toFloat

end Number
end PolicyDecision
