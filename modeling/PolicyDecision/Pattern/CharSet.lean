/-!
# PolicyDecision.Pattern.CharSet

Sets of characters as ranges of code points.

* `CharSet`: ranges in ascending order.
* `CharSet.ofRanges`: any ranges, put in order and merged.
* `union`, `complement`, `intersection`, `difference`, `symmetricDifference`.
-/

namespace PolicyDecision
namespace Pattern

structure CharSet where
  ranges : List (Nat × Nat)

namespace CharSet

def lastPoint : Nat := 0x10FFFF

def containsIn (c : Nat) : List (Nat × Nat) → Bool
  | [] => false
  | (low, high) :: rest => if c < low then false else c ≤ high || containsIn c rest

def contains (s : CharSet) (c : Char) : Bool := containsIn c.toNat s.ranges

/-- Merge ranges that overlap or touch; the ranges ascend by their first point. -/
def mergeRanges : List (Nat × Nat) → List (Nat × Nat)
  | [] => []
  | (low, high) :: rest =>
    match mergeRanges rest with
    | [] => [(low, high)]
    | (low', high') :: more =>
      if low' ≤ high + 1 then (low, max high high') :: more
      else (low, high) :: (low', high') :: more

def ofRanges (ranges : List (Nat × Nat)) : CharSet :=
  ⟨mergeRanges (ranges.mergeSort fun a b => a.1 ≤ b.1)⟩

def empty : CharSet := ⟨[]⟩

def all : CharSet := ⟨[(0, lastPoint)]⟩

def point (c : Nat) : CharSet := ⟨[(c, c)]⟩

def union (a b : CharSet) : CharSet := ofRanges (a.ranges ++ b.ranges)

/-- The gaps between ranges, from `start` on. -/
def gaps (start : Nat) : List (Nat × Nat) → List (Nat × Nat)
  | [] => if start ≤ lastPoint then [(start, lastPoint)] else []
  | (low, high) :: rest =>
    if start < low then (start, low - 1) :: gaps (high + 1) rest else gaps (high + 1) rest

def complement (s : CharSet) : CharSet := ⟨gaps 0 s.ranges⟩

def intersection (a b : CharSet) : CharSet := (a.complement.union b.complement).complement

def difference (a b : CharSet) : CharSet := a.intersection b.complement

def symmetricDifference (a b : CharSet) : CharSet := (a.difference b).union (b.difference a)

/-- Whether every member is below U+0080. -/
def isAscii (s : CharSet) : Bool := s.ranges.all fun r => r.2 < 0x80

end CharSet
end Pattern
end PolicyDecision
