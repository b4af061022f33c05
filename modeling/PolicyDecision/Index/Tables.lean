import PolicyDecision.Formula.Basic
import PolicyDecision.Index.Bitmask
import PolicyDecision.Index.Order
import PolicyDecision.Table

/-!
# PolicyDecision.Index.Tables

The tables that retrievals match against.

Every clause that occurs in a formula is listed once, with the documents whose formulas have it. A
predicate stands at the position of its turn in the evaluation order.

* `CompiledClause`: the positions that a clause references, and the truth it requires there.
* `MatchingTables.Collected`: what the formulas have, from one document to the next.
* `MatchingTables.Compiled`: the clauses in bits, from one clause to the next.
* `MatchingTables.build`: the tables of the documents with their formulas.
-/

namespace PolicyDecision

structure CompiledClause where
  /-- The positions of the predicates in the clause. -/
  mask : Bitmask
  /-- Those of them that have to be true. -/
  polarity : Bitmask
  literalCount : Nat
  /-- The positions of the documents that have the clause. -/
  documents : List Nat
deriving DecidableEq

structure MatchingTables where
  documentNames : List String := []
  /-- The predicates in the order in which they are evaluated. -/
  order : List PredicateId := []
  clauses : List CompiledClause := []
  /-- The clauses that reference the predicate at each position. -/
  references : List (List Nat) := []
  clausesPerDocument : List Nat := []
deriving DecidableEq

namespace MatchingTables

/-- The clauses of a formula that can hold. -/
def satisfiable (f : Formula) : List Clause := f.clauses.items.filter fun c => !c.isFalse

/-! ## The clauses of the documents -/

structure Collected where
  documentNames : List String := []
  clausesPerDocument : List Nat := []
  /-- The position of each clause in the list of clauses. -/
  numbers : List (Clause × Nat) := []
  /-- Every clause once, with the positions of the documents that have it. -/
  clauses : List (Clause × List Nat) := []

namespace Collected

/-- The number of a clause, which is added if it is new. -/
def number (s : Collected) (c : Clause) : Nat × Collected :=
  match s.numbers.lookup c with
  | some id => (id, s)
  | none =>
    let id := s.clauses.length
    (id, { s with numbers := (c, id) :: s.numbers, clauses := s.clauses ++ [(c, [])] })

/-- The document at a position has a clause. -/
def addClause (position : Nat) (s : Collected) (c : Clause) : Collected :=
  let (id, s) := s.number c
  { s with clauses := s.clauses.modify id fun e => (e.1, e.2 ++ [position]) }

/-- A document at its position, with its clauses and their count. -/
def addDocument (s : Collected) (d : (String × Formula) × Nat) : Collected :=
  let r := (satisfiable d.1.2).foldl (fun r c => (r.1.addClause d.2 c, r.2 + 1)) (s, 0)
  { r.1 with
    documentNames := r.1.documentNames ++ [d.1.1]
    clausesPerDocument := r.1.clausesPerDocument ++ [r.2] }

end Collected

/-- One more reference to a predicate; the predicates stay in ascending order. -/
def countReference (id : PredicateId) : ReferenceCounts → ReferenceCounts
  | [] => [(id, 1)]
  | (other, n) :: rest =>
    match compare id other with
    | .lt => (id, 1) :: (other, n) :: rest
    | .eq => (other, n + 1) :: rest
    | .gt => (other, n) :: countReference id rest

/-- How many literals of the clauses reference each predicate. -/
def countReferences (clauses : List Clause) : ReferenceCounts :=
  clauses.foldl (fun counts c => c.predicates.foldl (fun counts id => countReference id counts) counts)
    []

/-! ## Bits -/

structure Compiled where
  clauses : List CompiledClause := []
  /-- The clauses so far that reference the predicate at each position. -/
  references : List (List Nat)

/-- The bits of a clause so far. -/
structure Encoding where
  mask : Bitmask
  polarity : Bitmask
  references : List (List Nat)

/-- A literal of the clause with a number. Constants have no position. -/
def Encoding.addLiteral (positions : List (PredicateId × Nat)) (number : Nat) (e : Encoding)
    (l : Literal) : Encoding :=
  match l.predicate?.bind (positions.lookup ·) with
  | none => e
  | some position =>
    { mask := e.mask.set position
      polarity := if l.isNegated then e.polarity else e.polarity.set position
      references := e.references.modify position (· ++ [number]) }

def Compiled.addClause (order : List PredicateId) (s : Compiled)
    (c : (Clause × List Nat) × Nat) : Compiled :=
  let e := c.1.1.literals.items.foldl (Encoding.addLiteral order.zipIdx c.2)
    ⟨.zeros order.length, .zeros order.length, s.references⟩
  { clauses := s.clauses ++ [{
      mask := e.mask
      polarity := e.polarity
      literalCount := e.mask.count
      documents := c.1.2 }]
    references := e.references }

def build (documents : List (String × Formula)) (strategy : OrderStrategy) : MatchingTables :=
  let found := documents.zipIdx.foldl Collected.addDocument {}
  let order := checkedOrder strategy (countReferences (found.clauses.map (·.1)))
  let compiled := found.clauses.zipIdx.foldl (Compiled.addClause order)
    { references := List.replicate order.length [] }
  { documentNames := found.documentNames
    order
    clauses := compiled.clauses
    references := compiled.references
    clausesPerDocument := found.clausesPerDocument }

end MatchingTables
end PolicyDecision
