import PolicyDecision.Error
import PolicyDecision.Fault

/-!
# PolicyDecision.Function.Library

The functions that expressions can call.

* `Function`: values in, a value out.
* `FunctionLibrary`: functions by qualified name; a name is registered once.
* `FunctionLibrary.call`: an error among the arguments is the result of the call.
-/

namespace PolicyDecision

abbrev Function := List Val → Val

structure FunctionLibrary where
  functions : SortedTable Function

namespace FunctionLibrary

def empty : FunctionLibrary := ⟨.empty⟩

instance : Inhabited FunctionLibrary := ⟨empty⟩

def isProvided (library : FunctionLibrary) (name : String) : Bool :=
  library.functions.contains name

def register (library : FunctionLibrary) (name : String) (function : Function) :
    Except Error FunctionLibrary :=
  if library.isProvided name then .error (.duplicateFunction name)
  else .ok ⟨library.functions.insert name function⟩

/-- The registered names in order. -/
def names (library : FunctionLibrary) : List String := library.functions.keys

def call (library : FunctionLibrary) (name : String) (arguments : List Val) : Val :=
  match Val.firstError? arguments with
  | some error => error
  | none =>
    match library.functions.get? name with
    | some function => function arguments
    | none => .fault (.unknownFunction name)

end FunctionLibrary
end PolicyDecision
