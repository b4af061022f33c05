import PolicyDecision.Error
import PolicyDecision.Formula.Literal

/-!
# PolicyDecision.Formula.Clause

Conjunctive clauses: sets of literals that have to hold together.

* `Clause.reduce`: a clause with `false`, or with a predicate and its negation, is the constant
  `false`; the literal `true` is left out unless nothing else remains.
* `Clause.and`, `Clause.rename`, `Clause.subsumes`, `Clause.holds`.
-/

namespace PolicyDecision

structure Clause where
  literals : OrderedSet Literal
deriving DecidableEq

namespace Clause

/-- Clauses compare as lists of literals. -/
instance : Ord Clause := ⟨fun a b => compare a.literals.items b.literals.items⟩

instance : Std.TransOrd Clause :=
  inferInstanceAs (Std.TransCmp (compareOn fun c : Clause => c.literals.items))

theorem ext {a b : Clause} (h : a.literals.items = b.literals.items) : a = b := by
  cases a with
  | mk s =>
    cases b with
    | mk t =>
      cases s
      cases t
      cases h
      rfl

instance : Std.LawfulEqOrd Clause where
  compare_self {a} :=
    show compare a.literals.items a.literals.items = .eq from Std.ReflCmp.compare_self
  eq_of_compare {a b} h := ext (Std.LawfulEqOrd.eq_of_compare
    (show compare a.literals.items b.literals.items = .eq from h))

def constant (value : Bool) : Clause := ⟨.singleton (.constant value)⟩

/-- Whether a set has a predicate together with its negation. -/
def isContradictory (literals : OrderedSet Literal) : Bool :=
  literals.any fun l => l.isNegated && literals.contains l.negate

def reduce (literals : OrderedSet Literal) : Clause :=
  if literals.contains (.constant false) then constant false
  else
    let predicates := literals.filter fun l => l.constant?.isNone
    if predicates.isEmpty then constant true
    else if isContradictory predicates then constant false
    else ⟨predicates⟩

def ofList? (literals : List Literal) : Except Error Clause :=
  if literals.isEmpty then .error .emptyClause else .ok (reduce (.ofList literals))

def ofLiteral (l : Literal) : Clause := reduce (.singleton l)

def constant? (c : Clause) : Option Bool :=
  match c.literals.items with
  | [l] => l.constant?
  | _ => none

def isTrue (c : Clause) : Bool := c.constant? == some true

def isFalse (c : Clause) : Bool := c.constant? == some false

/-- The number of literals. -/
def size (c : Clause) : Nat := c.literals.size

def predicates (c : Clause) : List PredicateId := c.literals.items.filterMap Literal.predicate?

/-- Different predicates have to get different numbers for the clause to stay reduced. -/
def rename (f : PredicateId → PredicateId) (c : Clause) : Clause :=
  ⟨c.literals.image (Literal.rename f)⟩

def and (a b : Clause) : Clause := reduce (a.literals.union b.literals)

/-- Whether the first clause holds wherever the second one does. -/
def subsumes (a b : Clause) : Bool :=
  a.isTrue || b.isFalse || a.literals.isSubset b.literals

def holds (assignment : Assignment) (c : Clause) : Bool :=
  c.literals.all (Literal.holds assignment)

def text (c : Clause) : String :=
  "(" ++ " & ".intercalate (c.literals.items.map Literal.text) ++ ")"

end Clause
end PolicyDecision
