import PolicyDecision.Error
import PolicyDecision.Stream.Resume

/-!
# PolicyDecision.Attribute.Registry

Attribute finders: where policies get the attributes of values from.

* `Reply`: some values at once, or the values of a live attribute as they come.
* `AttributeFinder`: a reply for a value, arguments and the bound variables.
* `AttributeRegistry.follow`: the stream of an attribute. An attribute without a finder is one
  error.
-/

namespace PolicyDecision

/-- Variable bindings; each name is bound once. -/
abbrev Variables := List (String × Val)

inductive Reply where
  | values (values : List Val)
  | live (source : String)

abbrev AttributeFinder := Val → List Val → Variables → Reply

def Reply.stream : Reply → Stream Val
  | .values vs => .ofList vs
  | .live source => .live source

/-- The same stream after the record of a call. -/
def Flow.called {α : Type} (call : FinderCall) (w : Flow α) : Flow α :=
  ⟨.call call :: w.events, w.rest⟩

structure AttributeRegistry where
  finders : SortedTable AttributeFinder

namespace AttributeRegistry

def empty : AttributeRegistry := ⟨.empty⟩

instance : Inhabited AttributeRegistry := ⟨empty⟩

def isProvided (registry : AttributeRegistry) (name : String) : Bool :=
  registry.finders.contains name

def size (registry : AttributeRegistry) : Nat := registry.finders.size

def register (registry : AttributeRegistry) (name : String) (finder : AttributeFinder) :
    Except Error AttributeRegistry :=
  if registry.isProvided name then .error (.duplicateAttributeFinder name)
  else .ok ⟨registry.finders.insert name finder⟩

def follow (registry : AttributeRegistry) (name : String) (parent : Val) (arguments : List Val)
    (bindings : Variables) : Stream Val := fun now place =>
  match registry.finders.get? name with
  | none => .just (.fault (.unknownAttribute name))
  | some finder =>
    ((finder parent arguments bindings).stream now place).called ⟨name, parent, arguments, place⟩

end AttributeRegistry
end PolicyDecision
