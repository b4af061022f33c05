import PolicyDecision.Json.Basic

/-!
# PolicyDecision.Subscription

Authorization subscriptions: who wants to do what with which resource, in which environment.

* `Subscription.attributes`: the four variables that a subscription binds.
* `isReserved`: the names of these variables, which nothing else can bind.
-/

namespace PolicyDecision

structure Subscription where
  subject : Json := .null
  action : Json := .null
  resource : Json := .null
  environment : Json := .null

instance : Inhabited Subscription := ⟨{}⟩

def reservedNames : List String := ["subject", "action", "resource", "environment"]

def isReserved (name : String) : Bool := reservedNames.contains name

def Subscription.attributes (s : Subscription) : List (String × Json) :=
  [("subject", s.subject), ("action", s.action), ("resource", s.resource),
    ("environment", s.environment)]

end PolicyDecision
