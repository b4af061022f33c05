import PolicyDecision.Decision.Basic
import PolicyDecision.Subscription
import PolicyDecision.Syntax.Decoding

/-!
# PolicyDecision.Decision.Coding

The JSON forms of decisions and subscriptions. Constraints that are not there are left out.
-/

namespace PolicyDecision

def Outcome.name : Outcome → String
  | .permit => "PERMIT"
  | .deny => "DENY"
  | .indeterminate => "INDETERMINATE"
  | .notApplicable => "NOT_APPLICABLE"

def Outcome.ofJson? (j : Json) : Option Outcome :=
  match plainForm? j with
  | some "PERMIT" => some .permit
  | some "DENY" => some .deny
  | some "INDETERMINATE" => some .indeterminate
  | some "NOT_APPLICABLE" => some .notApplicable
  | _ => none

namespace Decision

def toJson (d : Decision) : Json :=
  .object ([("decision", .string d.outcome.name)] ++
    (d.resource.map fun j => ("resource", j)).toList ++
    (d.obligations.map fun js => ("obligations", .array js)).toList ++
    (d.advice.map fun js => ("advice", .array js)).toList)

/-- A constraint; null stands for none. -/
def readOptionalArray : Json → Option (Option (List Json))
  | .null => some none
  | .array items => some (some items)
  | _ => none

structure Fields where
  outcome : Option Outcome := none
  resource : Option Json := none
  obligations : Option (List Json) := none
  advice : Option (List Json) := none

def Fields.read (f : Fields) (key : String) (j : Json) : Option Fields :=
  match key with
  | "decision" => do return { f with outcome := some (← Outcome.ofJson? j) }
  | "resource" =>
    match j with
    | .null => some { f with resource := none }
    | j => some { f with resource := some j }
  | "obligations" => do return { f with obligations := ← readOptionalArray j }
  | "advice" => do return { f with advice := ← readOptionalArray j }
  | _ => some f

/-- Every field of the array form has to be there. -/
def ofJson? (j : Json) : Option Decision := do
  let fields ← match j with
    | .object fields => some fields
    | .array [a, b, c, d] => some [("decision", a), ("resource", b), ("obligations", c), ("advice", d)]
    | _ => none
  let f ← readRecord Fields.read fields {}
  return ⟨← f.outcome, f.resource, f.obligations, f.advice⟩

end Decision

namespace Subscription

def toJson (s : Subscription) : Json := .object s.attributes

def read (s : Subscription) (key : String) (j : Json) : Option Subscription :=
  match key with
  | "subject" => some { s with subject := j }
  | "action" => some { s with action := j }
  | "resource" => some { s with resource := j }
  | "environment" => some { s with environment := j }
  | _ => some s

def ofJson? (j : Json) : Option Subscription := do
  readRecord read (← recordFields? reservedNames j) {}

end Subscription
end PolicyDecision
