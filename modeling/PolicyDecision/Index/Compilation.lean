import PolicyDecision.Formula.Basic
import PolicyDecision.Index.PredicateTable

/-!
# PolicyDecision.Index.Compilation

Compiling targets into formulas.

The logical connectives, eager or not, and groups become connectives of formulas; anything else is
a predicate, which is looked up under its resolved names. Formulas with more clauses than a limit
are refused.

* `Expression.compile`: the formula of an expression.
* `compileTarget`: a target without attribute finders; no target holds always.

The table keeps the predicates that were met before a refusal.
-/

namespace PolicyDecision

abbrev Compilation := Except Error Formula × PredicateTable

def Formula.bounded (limit : Nat) (f : Formula) : Except Error Formula :=
  if f.size > limit then .error (.tooManyClauses f.size limit) else .ok f

/-- The conjunction, refused before it is formed when it has too many pairs of clauses. -/
def Formula.conjunction (limit : Nat) (f g : Formula) : Except Error Formula :=
  if f.size * g.size > limit then .error (.tooManyClauses (f.size * g.size) limit)
  else (f.and g).bounded limit

def Formula.disjunction (limit : Nat) (f g : Formula) : Except Error Formula :=
  (f.or g).bounded limit

namespace Compilation

/-- Compile a part and join its formula to another one. -/
def andThen (first : Compilation) (second : PredicateTable → Compilation)
    (join : Formula → Formula → Except Error Formula) : Compilation :=
  match first with
  | (.error e, table) => (.error e, table)
  | (.ok f, table) =>
    match second table with
    | (.error e, table) => (.error e, table)
    | (.ok g, table) => (join f g, table)

def map (change : Formula → Except Error Formula) (c : Compilation) : Compilation :=
  (c.1.bind change, c.2)

end Compilation

/-- The formula of a predicate. -/
def compilePredicate (imports : Imports) (e : Expression) (table : PredicateTable) : Compilation :=
  match table.intern (e.resolveImports imports) with
  | .ok (id, table) => (.ok (.ofLiteral (.ofPredicate id)), table)
  | .error e => (.error e, table)

def Expression.compile (imports : Imports) (limit : Nat) : Expression → PredicateTable → Compilation
  | .basic (.value (.bool b)) [] none, table => (.ok (.constant b), table)
  | .basic (.group inner) [] none, table => inner.compile imports limit table
  | .unary .not operand, table =>
    (operand.compile imports limit table).map fun f => f.negate.bounded limit
  | .binary op left right, table =>
    match op with
    | .and | .eagerAnd =>
      (left.compile imports limit table).andThen (right.compile imports limit)
        (Formula.conjunction limit)
    | .or | .eagerOr =>
      (left.compile imports limit table).andThen (right.compile imports limit)
        (Formula.disjunction limit)
    | op => compilePredicate imports (.binary op left right) table
  | e, table => compilePredicate imports e table

def compileTarget (imports : Imports) (limit : Nat) (target : Option Expression)
    (table : PredicateTable) : Compilation :=
  match target with
  | none => (.ok (.constant true), table)
  | some e =>
    if e.containsFinder then (.error .attributeFinderInTarget, table)
    else e.compile imports limit table

end PolicyDecision
