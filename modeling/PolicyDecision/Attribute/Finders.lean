import PolicyDecision.Attribute.Registry

/-!
# PolicyDecision.Attribute.Finders

Simple attribute finders.
-/

namespace PolicyDecision
namespace AttributeFinder

/-- The same values for every call. -/
def fixed (values : List Val) : AttributeFinder := fun _ _ _ => .values values

/-- What the finder was called with, as text. -/
def echo : AttributeFinder := fun parent arguments _ =>
  .values [.defined (.object [("parent", .string parent.text),
    ("arguments", .array (arguments.map fun v => .string v.text))])]

/-- The variable that the first argument names. -/
def ofVariable : AttributeFinder := fun _ arguments bindings =>
  let name := (arguments.head?.bind Val.string?).getD ""
  .values [(bindings.lookup name).getD .undefined]

/-- The live attribute of a name, whatever it is called with. -/
def live (source : String) : AttributeFinder := fun _ _ _ => .live source

end AttributeFinder
end PolicyDecision
