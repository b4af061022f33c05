import PolicyDecision.OrderedSet
import PolicyDecision.Formula.Literal

/-!
# PolicyDecision.Index.Order

The order in which predicates are evaluated.

* `OrderStrategy`: proposes an order, given how many clauses reference each predicate.
* `PredicateOrder.strategy`: the strategies that can be configured.
* `Placement`: the part of a proposal that was looked at, without repetitions.
* `checkedOrder`: a proposal made into an order of exactly the referenced predicates.
-/

namespace PolicyDecision

/-- Predicates with the number of clauses that reference them. -/
abbrev ReferenceCounts := List (PredicateId × Nat)

abbrev OrderStrategy := ReferenceCounts → List PredicateId

/-- More references come first, then lower numbers. -/
def referencedMore (a b : PredicateId × Nat) : Bool :=
  b.2 < a.2 || (a.2 == b.2 && a.1 ≤ b.1)

def mostReferencedFirst : OrderStrategy := fun references =>
  (references.mergeSort referencedMore).map (·.1)

def definitionOrder : OrderStrategy := fun references =>
  (references.map (·.1)).mergeSort fun a b => a ≤ b

inductive PredicateOrder where
  | mostReferenced
  | definition
deriving DecidableEq

namespace PredicateOrder

instance : Inhabited PredicateOrder := ⟨mostReferenced⟩

def strategy : PredicateOrder → OrderStrategy
  | mostReferenced => mostReferencedFirst
  | definition => definitionOrder

end PredicateOrder

/-- Predicates in the order of their turns, and the set of them. -/
structure Placement where
  order : List PredicateId := []
  placed : OrderedSet PredicateId := .empty

/-- A predicate gets the next turn, unless it is unknown or has one already. -/
def Placement.add (referenced : OrderedSet PredicateId) (p : Placement) (id : PredicateId) :
    Placement :=
  if referenced.contains id && !p.placed.contains id then
    { order := p.order ++ [id], placed := p.placed.insert id }
  else p

/-- The proposal of a strategy without repetitions and unknown predicates, followed by the
predicates it left out. -/
def checkedOrder (strategy : OrderStrategy) (references : ReferenceCounts) : List PredicateId :=
  let referenced := OrderedSet.ofList (references.map (·.1))
  let p := (strategy references).foldl (Placement.add referenced) {}
  if p.order.length < referenced.size then p.order ++ (referenced.difference p.placed).items
  else p.order

end PolicyDecision
