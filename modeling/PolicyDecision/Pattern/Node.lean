import PolicyDecision.Pattern.Classes
import PolicyDecision.Pattern.Folding

/-!
# PolicyDecision.Pattern.Node

Regular expressions.

* `Look`: what holds between two characters of a text.
* `Node`: the expression tree.
* `Node.ends`: the positions at which a match that starts at one of some positions can end.
* `Node.matchesIn`: whether a text has a match.

Only the existence of a match is asked for, so greedy and lazy repetition are the same here.
-/

namespace PolicyDecision
namespace Pattern

inductive Look where
  | textStart
  | textEnd
  /-- A line ends before a line feed; with `carriage` also before a carriage return. -/
  | lineStart (carriage : Bool)
  | lineEnd (carriage : Bool)
  | wordBoundary (unicode : Bool)
  | notWordBoundary (unicode : Bool)
  | wordStart (unicode : Bool)
  | wordEnd (unicode : Bool)
  | wordStartHalf (unicode : Bool)
  | wordEndHalf (unicode : Bool)
deriving DecidableEq

inductive Node where
  | empty
  | set (chars : CharSet)
  | look (l : Look)
  | capture (node : Node)
  | cat (left right : Node)
  | alt (left right : Node)
  | repeated (node : Node) (least : Nat) (most : Option Nat)

namespace Look

def wordAt (text : Array Char) (unicode : Bool) (position : Nat) : Bool :=
  match text[position]? with
  | some c => (if unicode then CharSet.word else CharSet.asciiWord).contains c
  | none => false

def wordBefore (text : Array Char) (unicode : Bool) (position : Nat) : Bool :=
  position != 0 && wordAt text unicode (position - 1)

def charAt (text : Array Char) (position : Nat) (c : Char) : Bool := text[position]? == some c

def charBefore (text : Array Char) (position : Nat) (c : Char) : Bool :=
  position != 0 && charAt text (position - 1) c

def holds (text : Array Char) (position : Nat) : Look → Bool
  | .textStart => position == 0
  | .textEnd => position == text.size
  | .lineStart false => position == 0 || charBefore text position '\n'
  | .lineStart true =>
    position == 0 || charBefore text position '\n' ||
      (charBefore text position '\r' && !charAt text position '\n')
  | .lineEnd false => position == text.size || charAt text position '\n'
  | .lineEnd true =>
    position == text.size || charAt text position '\r' ||
      (charAt text position '\n' && !charBefore text position '\r')
  | .wordBoundary u => wordBefore text u position != wordAt text u position
  | .notWordBoundary u => wordBefore text u position == wordAt text u position
  | .wordStart u => !wordBefore text u position && wordAt text u position
  | .wordEnd u => wordBefore text u position && !wordAt text u position
  | .wordStartHalf u => !wordBefore text u position
  | .wordEndHalf u => !wordAt text u position

end Look

/-! ## Positions -/

/-- Union of two ascending lists of positions. -/
def mergePositions : List Nat → List Nat → List Nat
  | [], bs => bs
  | as, [] => as
  | a :: as, b :: bs =>
    if a < b then a :: mergePositions as (b :: bs)
    else if b < a then b :: mergePositions (a :: as) bs
    else a :: mergePositions as bs
termination_by as bs => as.length + bs.length

/-- The members of an ascending list that are not in another one. -/
def newPositions : List Nat → List Nat → List Nat
  | [], _ => []
  | as, [] => as
  | a :: as, b :: bs =>
    if a < b then a :: newPositions as (b :: bs)
    else if b < a then newPositions (a :: as) bs
    else newPositions as bs
termination_by as bs => as.length + bs.length

/-- Apply a step a number of times, stopping where it changes nothing. -/
def iterate (step : List Nat → List Nat) : Nat → List Nat → List Nat
  | 0, ps => ps
  | n + 1, ps =>
    let next := step ps
    if next == ps then ps else iterate step n next

/-- All positions that at most `n` steps reach, given those that are new since the last step. -/
def reach (step : List Nat → List Nat) : Nat → List Nat → List Nat → List Nat
  | 0, _, found => found
  | n + 1, frontier, found =>
    let fresh := newPositions (step frontier) found
    if fresh.isEmpty then found else reach step n fresh (mergePositions found fresh)

namespace Node

/-- The ends of the matches that start at one of `starts`; both lists ascend. -/
def ends (text : Array Char) : Node → List Nat → List Nat
  | .empty, starts => starts
  | .set chars, starts =>
    starts.filterMap fun p =>
      match text[p]? with
      | some c => if chars.contains c then some (p + 1) else none
      | none => none
  | .look l, starts => starts.filter fun p => l.holds text p
  | .capture n, starts => n.ends text starts
  | .cat a b, starts => b.ends text (a.ends text starts)
  | .alt a b, starts => mergePositions (a.ends text starts) (b.ends text starts)
  | .repeated n least most, starts =>
    let first := iterate (n.ends text) least starts
    let more := match most with
      | some m => min (m - least) (text.size + 1)
      | none => text.size + 1
    reach (n.ends text) more first first

/-- Whether some part of the text matches. -/
def matchesIn (n : Node) (text : String) : Bool :=
  let chars := text.toList.toArray
  !(n.ends chars (List.range (chars.size + 1))).isEmpty

end Node
end Pattern
end PolicyDecision
