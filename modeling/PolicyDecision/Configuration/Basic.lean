import PolicyDecision.Error
import PolicyDecision.Index.Canonical
import PolicyDecision.Index.Naive
import PolicyDecision.Subscription

/-!
# PolicyDecision.Configuration.Basic

How a retrieval point is set up.

* `Configuration`: the kind of the index, and variables that are bound in every evaluation.
* `Configuration.validate`: a target may have one clause at least, and no variable hides an
  attribute of the subscription.
-/

namespace PolicyDecision

inductive IndexKind where
  | canonical
  | naive
deriving DecidableEq

structure IndexOptions where
  kind : IndexKind := .canonical
  predicateOrder : PredicateOrder := .mostReferenced
  /-- The number of clauses that a target may have. -/
  maxClauses : Nat := defaultMaxClauses

structure Configuration where
  index : IndexOptions := {}
  globals : SortedTable Json := .empty

namespace Configuration

/-- The first variable with the name of an attribute of the subscription. -/
def shadowed? (c : Configuration) : Option String := c.globals.keys.find? isReserved

def validate (c : Configuration) : Except Error Unit :=
  if c.index.maxClauses = 0 then .error .noClauseAllowed
  else
    match c.shadowed? with
    | some name => .error (.shadowedAttribute name)
    | none => .ok ()

end Configuration
end PolicyDecision
