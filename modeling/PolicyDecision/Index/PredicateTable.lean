import PolicyDecision.Error
import PolicyDecision.Formula.Literal
import PolicyDecision.Json.Printer
import PolicyDecision.Syntax.Encoding

/-!
# PolicyDecision.Index.PredicateTable

The predicates that documents share. The number of a predicate is its position.

* `Expression.signature`: expressions with one signature have the same JSON form up to the order of
  fields; they are one predicate.
* `PredicateTable.intern`: the number of an expression, which is added if it is new.
* `PredicateTable.compacted`: the predicates that are still in use, numbered anew in their order.
-/

namespace PolicyDecision

def Expression.signature (e : Expression) : String := e.toJson.sortKeys.text

structure PredicateTable where
  predicates : List Expression

namespace PredicateTable

def empty : PredicateTable := ⟨[]⟩

instance : Inhabited PredicateTable := ⟨empty⟩

def size (t : PredicateTable) : Nat := t.predicates.length

def isEmpty (t : PredicateTable) : Bool := t.predicates.isEmpty

def get? (t : PredicateTable) (id : PredicateId) : Option Expression := t.predicates[id]?

/-- The number of the predicate that has the signature of an expression. -/
def find? (t : PredicateTable) (e : Expression) : Option PredicateId :=
  t.predicates.findIdx? fun p => p.signature == e.signature

/-- Predicates are numbered by 32 bit words. -/
def capacity : Nat := 0x100000000

def intern (t : PredicateTable) (e : Expression) : Except Error (PredicateId × PredicateTable) :=
  match t.find? e with
  | some id => .ok (id, t)
  | none =>
    if t.size < capacity then .ok (t.size, ⟨t.predicates ++ [e]⟩) else .error .tooManyPredicates

/-- The numbers in use that the table has, in ascending order. -/
def survivors (t : PredicateTable) (live : OrderedSet PredicateId) : List PredicateId :=
  (List.range t.size).filter live.contains

/-- The new number of each survivor. -/
def renumbering (t : PredicateTable) (live : OrderedSet PredicateId) :
    List (PredicateId × PredicateId) :=
  (t.survivors live).zipIdx

def compacted (t : PredicateTable) (live : OrderedSet PredicateId) : PredicateTable :=
  ⟨(t.survivors live).filterMap t.get?⟩

/-- The new number of a predicate that survives; other numbers stay. -/
def renumber (t : PredicateTable) (live : OrderedSet PredicateId) (id : PredicateId) :
    PredicateId :=
  ((t.renumbering live).lookup id).getD id

/-- Tables are the same when their signatures are. -/
instance : BEq PredicateTable where
  beq s t := s.predicates.map Expression.signature == t.predicates.map Expression.signature

end PredicateTable
end PolicyDecision
