import PolicyDecision.Attribute.Registry
import PolicyDecision.Function.Standard
import PolicyDecision.Pattern.Dialect
import PolicyDecision.Subscription
import PolicyDecision.Syntax.Imports

/-!
# PolicyDecision.Context

Evaluation contexts. A context is never changed; scoped bindings derive a new one.

* `Context.bind`: a variable, over an earlier binding of the name; the variables of the
  subscription cannot be bound.
* `Context.subscribe`: the variables of a subscription.
* `Context.forTarget`: target evaluation, in which attribute finders are not allowed.
-/

namespace PolicyDecision

structure Context where
  attributes : AttributeRegistry := .empty
  functions : FunctionLibrary := .empty
  patterns : PatternDialect := .standard
  bindings : Variables := []
  imports : Imports := .empty
  /-- What `@` stands for. -/
  relativeNode : Val := .undefined
  inTarget : Bool := false

namespace Context

instance : Inhabited Context := ⟨{}⟩

/-- No attribute finders, and the standard functions. -/
def standard : Context := { functions := .standard }

/-- The value of a variable; names without a binding are undefined. -/
def valueOf (ctx : Context) (name : String) : Val := (ctx.bindings.lookup name).getD .undefined

def bind (ctx : Context) (name : String) (value : Val) : Except Error Context :=
  if isReserved name then .error (.reservedVariable name)
  else .ok { ctx with bindings := Entries.put name value ctx.bindings }

def bindAll (ctx : Context) : List (String × Json) → Except Error Context
  | [] => .ok ctx
  | (name, value) :: rest => do (← ctx.bind name (.defined value)).bindAll rest

def subscribe (ctx : Context) (s : Subscription) : Context :=
  { ctx with
    bindings := s.attributes.foldl (fun vs a => Entries.put a.1 (.defined a.2) vs) ctx.bindings }

def withImports (ctx : Context) (imports : Imports) : Context := { ctx with imports }

@[simp] theorem patterns_withImports (ctx : Context) (imports : Imports) :
    (ctx.withImports imports).patterns = ctx.patterns := rfl

def withRelative (ctx : Context) (node : Val) : Context := { ctx with relativeNode := node }

def forTarget (ctx : Context) : Context := { ctx with inTarget := true }

/-- The qualified name of a function or attribute. -/
def resolve (ctx : Context) (name : String) : String := ctx.imports.resolve name

/-- The names of the bound variables in order. -/
def boundNames (ctx : Context) : List String :=
  (SortedTable.ofList (ctx.bindings.map fun v => (v.1, ()))).keys

end Context
end PolicyDecision
