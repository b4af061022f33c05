import PolicyDecision.Json.Basic

/-!
# PolicyDecision.Decision.Basic

Authorization decisions: an outcome with the constraints that the enforcement point has to heed.
-/

namespace PolicyDecision

inductive Outcome where
  | permit
  | deny
  | indeterminate
  | notApplicable
deriving DecidableEq

structure Decision where
  outcome : Outcome
  /-- The transformed resource. -/
  resource : Option Json := none
  obligations : Option (List Json) := none
  advice : Option (List Json) := none

namespace Decision

def permit : Decision := ⟨.permit, none, none, none⟩
def deny : Decision := ⟨.deny, none, none, none⟩
def indeterminate : Decision := ⟨.indeterminate, none, none, none⟩
def notApplicable : Decision := ⟨.notApplicable, none, none, none⟩

end Decision
end PolicyDecision
