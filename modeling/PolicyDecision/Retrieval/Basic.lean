import PolicyDecision.Evaluation.Document

/-!
# PolicyDecision.Retrieval.Basic

Looking up the documents that apply to a subscription.

* `Retrieval`: what was found.
* `PredicateEvaluator`: decides the predicates of targets.
* `targetEvaluator`: the evaluator of a context that carries the subscription.
-/

namespace PolicyDecision

abbrev PredicateEvaluator := Expression → Except Error Bool

/-- A predicate that was evaluated, and its outcome. -/
structure Probe where
  predicate : Expression
  outcome : Except Error Bool

structure Retrieval where
  /-- The documents that apply, in the order of their names. -/
  matching : List Document
  /-- A predicate failed, or a document that applies could not be compiled. -/
  errorOccurred : Bool
  consistent : Bool
  /-- The documents that apply because they could not be compiled. -/
  erroneous : List String
  probes : List Probe

namespace Retrieval

/-- Nothing is found while the documents are being changed. -/
def inconsistent : Retrieval := ⟨[], false, false, [], []⟩

/-- Whether a decision may rest on this retrieval alone. -/
def isAuthoritative (r : Retrieval) : Bool := r.consistent && !r.errorOccurred

def names (r : Retrieval) : List String := r.matching.map (·.name)

end Retrieval

/-- The first value of a predicate has to be a boolean. Targets do not wait, since attribute
finders are not allowed in them. -/
def targetEvaluator (ctx : Context) : PredicateEvaluator := fun predicate =>
  match (predicate.evaluate ctx.forTarget .empty []).firstValue?.getD .undefined with
  | .defined (.bool b) => .ok b
  | .error message => .error (.predicateFailed message)
  | v => .error (.predicateNotBoolean v.text)

end PolicyDecision
