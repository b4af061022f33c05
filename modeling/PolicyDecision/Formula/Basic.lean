import PolicyDecision.Formula.Clause

/-!
# PolicyDecision.Formula.Basic

Formulas in disjunctive normal form: sets of clauses one of which has to hold.

* `Formula.reduce`: a formula with the clause `true` is the constant `true`; the clause `false` is
  left out unless nothing else remains; a clause that another one subsumes is absorbed.
* `Formula.and`, `or`, `negate`, `rename`, `holds`.
-/

namespace PolicyDecision

structure Formula where
  clauses : OrderedSet Clause
deriving DecidableEq

namespace Formula

def constant (value : Bool) : Formula := ⟨.singleton (.constant value)⟩

instance : Inhabited Formula := ⟨constant true⟩

/-- The clauses that no other one of the set subsumes. -/
def absorb (clauses : OrderedSet Clause) : OrderedSet Clause :=
  clauses.filter fun c => !clauses.any fun other => other != c && other.subsumes c

def reduce (clauses : OrderedSet Clause) : Formula :=
  if clauses.any Clause.isTrue then constant true
  else
    let candidates := clauses.filter fun c => !c.isFalse
    if candidates.isEmpty then constant false else ⟨absorb candidates⟩

def ofList? (clauses : List Clause) : Except Error Formula :=
  if clauses.isEmpty then .error .emptyFormula else .ok (reduce (.ofList clauses))

/-- The formula of one literal. -/
def ofLiteral (l : Literal) : Formula := reduce (.singleton (.ofLiteral l))

def isTrue (f : Formula) : Bool := f.clauses.size == 1 && f.clauses.all Clause.isTrue

def isFalse (f : Formula) : Bool := f.clauses.size == 1 && f.clauses.all Clause.isFalse

/-- The number of clauses. -/
def size (f : Formula) : Nat := f.clauses.size

def predicates (f : Formula) : OrderedSet PredicateId :=
  .ofList (f.clauses.items.flatMap Clause.predicates)

/-- Different predicates have to get different numbers for the formula to stay reduced. -/
def rename (r : PredicateId → PredicateId) (f : Formula) : Formula :=
  ⟨f.clauses.image (Clause.rename r)⟩

/-- Distributes over the clauses. -/
def and (f g : Formula) : Formula :=
  reduce (.ofList (f.clauses.items.flatMap fun a => g.clauses.items.map a.and))

def or (f g : Formula) : Formula := reduce (f.clauses.union g.clauses)

/-- The negation of a clause: one of the negated literals holds. -/
def ofNegatedClause (c : Clause) : Formula :=
  reduce (.ofList (c.literals.items.map fun l => .ofLiteral l.negate))

def negate (f : Formula) : Formula :=
  match f.clauses.items.map ofNegatedClause with
  | [] => constant true
  | first :: rest => rest.foldl and first

def holds (assignment : Assignment) (f : Formula) : Bool :=
  f.clauses.any (Clause.holds assignment)

def text (f : Formula) : String := " | ".intercalate (f.clauses.items.map Clause.text)

end Formula
end PolicyDecision
