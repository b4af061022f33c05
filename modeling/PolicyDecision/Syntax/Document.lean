import PolicyDecision.Syntax.Imports

/-!
# PolicyDecision.Syntax.Document

Policy documents.

* `Document`: a target that says when it applies, a body of statements, and constraints.
* `Statement`: a value definition or a condition.
-/

namespace PolicyDecision

inductive Entitlement where
  | permit
  | deny
deriving DecidableEq

inductive Statement where
  | valueDefinition (name : String) (value : Expression)
  | condition (condition : Expression)

/-- Statements hold in order; the constraints are evaluated once all of them do. -/
structure Document where
  name : String
  entitlement : Entitlement
  imports : Imports := .empty
  /-- Without a target a document applies to every subscription. -/
  target : Option Expression := none
  body : List Statement := []
  obligations : List Expression := []
  advice : List Expression := []
  /-- What the resource is turned into. -/
  transformation : Option Expression := none

namespace Document

/-- The target with its names resolved. -/
def resolvedTarget? (d : Document) : Option Expression :=
  d.target.map (·.resolveImports d.imports)

def withTarget (d : Document) (target : Expression) : Document := { d with target := some target }

def withStatement (d : Document) (s : Statement) : Document := { d with body := d.body ++ [s] }

def withImport (d : Document) (short qualified : String) : Document :=
  { d with imports := d.imports.insert short qualified }

def withObligation (d : Document) (e : Expression) : Document :=
  { d with obligations := d.obligations ++ [e] }

def withAdvice (d : Document) (e : Expression) : Document := { d with advice := d.advice ++ [e] }

def withTransformation (d : Document) (e : Expression) : Document :=
  { d with transformation := some e }

end Document
end PolicyDecision
