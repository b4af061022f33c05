import PolicyDecision.Pattern.Node

/-!
# PolicyDecision.Pattern.Size

How large the automaton of a pattern grows. Patterns whose automaton takes more than ten
megabytes are refused.

* `byteRanges`: a range of code points as sequences of ranges of encoded bytes.
* `Node.size`: the bytes that the states of a pattern take.
-/

namespace PolicyDecision
namespace Pattern

/-- The greatest number of bytes that the automaton of a pattern may take. -/
def sizeLimit : Nat := 10 * 0x100000

/-- The bytes of a code point in UTF-8. -/
def utf8 (c : Nat) : List Nat :=
  if c < 0x80 then [c]
  else if c < 0x800 then [0xC0 + c / 64, 0x80 + c % 64]
  else if c < 0x10000 then [0xE0 + c / 4096, 0x80 + c / 64 % 64, 0x80 + c % 64]
  else [0xF0 + c / 262144, 0x80 + c / 4096 % 64, 0x80 + c / 64 % 64, 0x80 + c % 64]

/-- Split a range where its length of encoding or one of its leading bytes changes, so that each
part is a product of byte ranges. -/
def byteRanges : Nat → Nat → Nat → List (List (Nat × Nat))
  | 0, _, _ => []
  | fuel + 1, low, high =>
    if low > high then []
    else if low < 0xE000 && high > 0xD7FF then
      byteRanges fuel low 0xD7FF ++ byteRanges fuel 0xE000 high
    else
      match [0x7F, 0x7FF, 0xFFFF].find? (fun m => low ≤ m && m < high) with
      | some m => byteRanges fuel low m ++ byteRanges fuel (m + 1) high
      | none =>
        if high ≤ 0x7F then [[(low, high)]]
        else
          match [64, 4096, 262144].find? (fun b =>
            low / b != high / b && (low % b != 0 || high % b != b - 1)) with
          | some b =>
            if low % b != 0 then
              let cut := low / b * b + (b - 1)
              byteRanges fuel low cut ++ byteRanges fuel (cut + 1) high
            else
              let cut := high / b * b
              byteRanges fuel low (cut - 1) ++ byteRanges fuel cut high
          | none => [(utf8 low).zip (utf8 high)]

/-- The number of leading members in which two lists agree. -/
def sharedLength : List (Nat × Nat) → List (Nat × Nat) → Nat
  | a :: as, b :: bs => if a = b then sharedLength as bs + 1 else 0
  | _, _ => 0

/-- States for sequences of which each shares the states of what it begins like its predecessor. -/
def sequenceStates : List (Nat × Nat) → List (List (Nat × Nat)) → Nat
  | _, [] => 0
  | before, s :: rest => s.length - sharedLength before s + sequenceStates s rest

def CharSet.size (s : CharSet) : Nat :=
  match s.ranges with
  | [(low, high)] => if low = high then 32 * (utf8 low).length else wide
  | _ => wide
where
  wide : Nat :=
    if s.isAscii then 64 + 8 * s.ranges.length
    else
      let sequences := s.ranges.flatMap fun r => byteRanges 64 r.1 r.2
      32 * (sequenceStates [] sequences + 2) + 4 * sequences.length

namespace Node

def size : Node → Nat
  | .empty => 32
  | .set s => s.size
  | .look _ => 32
  | .capture n => 64 + n.size
  | .cat a b => a.size + b.size
  | .alt a b => 72 + a.size + b.size
  | .repeated n least most =>
    match most with
    | some m => if m = 0 then 32 else m * n.size + (m - least) * 40 + (if m = least then 0 else 32)
    | none => max least 1 * n.size + 80

/-- Whether a node matches the empty text only. -/
def isBlank : Node → Bool
  | .empty => true
  | .set _ => false
  | .look _ => true
  | .capture n => n.isBlank
  | .cat a b => a.isBlank && b.isBlank
  | .alt a b => a.isBlank && b.isBlank
  | .repeated n _ most => n.isBlank || most == some 0

/-- Repetition; what matches the empty text only is repeated at most once. -/
def times (n : Node) (least : Nat) (most : Option Nat) : Node :=
  if n.isBlank then .repeated n (min least 1) (some (min (most.getD 1) 1))
  else .repeated n least most

end Node
end Pattern
end PolicyDecision
