import PolicyDecision.Index.PredicateTable
import PolicyDecision.Index.Tables
import PolicyDecision.Retrieval.Basic

/-!
# PolicyDecision.Index.Matching

Matching a subscription against the tables.

The predicates are evaluated in order. A clause is live as long as none of its literals is known to
fail and one of them is still open. The outcome of a predicate eliminates the live clauses that it
violates, and a failed one all clauses that reference it; a clause without open literals is
satisfied. A document is matched by a satisfied clause, and eliminated when all of its clauses are.

* `MatchState`: what is known of clauses and documents.
* `MatchRun.visit`: the turn of a predicate, which is evaluated only where its outcome matters.
* `MatchRun.run`: all turns, until every document is determined.
-/

namespace PolicyDecision

inductive DocumentState where
  | undetermined
  | matched
  | eliminated
deriving DecidableEq

structure MatchState where
  documents : List DocumentState
  /-- The clauses of each document that are not eliminated. -/
  liveClauses : List Nat
  live : Bitmask
  /-- The open literals of each clause. -/
  unsatisfied : List Nat
  /-- The number of undetermined documents. -/
  undetermined : Nat

namespace MatchState

/-- Determine a document, once. -/
def determine (s : MatchState) (document : Nat) (outcome : DocumentState) : MatchState :=
  if s.documents[document]? = some .undetermined then
    { s with documents := s.documents.set document outcome, undetermined := s.undetermined - 1 }
  else s

def satisfy (s : MatchState) (index : Nat) (c : CompiledClause) : MatchState :=
  c.documents.foldl (fun s d => s.determine d .matched) { s with live := s.live.clear index }

/-- One clause less for a document. -/
def release (s : MatchState) (document : Nat) : MatchState :=
  let s := { s with liveClauses := s.liveClauses.modify document (· - 1) }
  if s.liveClauses[document]? = some 0 then s.determine document .eliminated else s

def eliminate (s : MatchState) (index : Nat) (c : CompiledClause) : MatchState :=
  c.documents.foldl release { s with live := s.live.clear index }

/-- Nothing is evaluated yet: documents without clauses are eliminated, clauses without literals
satisfied. -/
def start (t : MatchingTables) : MatchState :=
  let s : MatchState :=
    { documents := List.replicate t.documentNames.length .undetermined
      liveClauses := t.clausesPerDocument
      live := .full t.clauses.length
      unsatisfied := t.clauses.map (·.literalCount)
      undetermined := t.documentNames.length }
  let s := t.clausesPerDocument.zipIdx.foldl
    (fun s d => if d.1 = 0 then s.determine d.2 .eliminated else s) s
  t.clauses.zipIdx.foldl (fun s c => if c.1.literalCount = 0 then s.satisfy c.2 c.1 else s) s

/-- Whether a live clause of an undetermined document references a position. -/
def isRelevant (s : MatchState) (t : MatchingTables) (position : Nat) : Bool :=
  ((t.references[position]?).getD []).any fun index =>
    s.live.test index &&
      ((t.clauses[index]?).map (·.documents)).any fun documents =>
        documents.any fun d => s.documents[d]? == some .undetermined

/-- What the outcome of the predicate at a position, none if it failed, makes of a clause. -/
def settle (t : MatchingTables) (position : Nat) (outcome : Option Bool) (s : MatchState)
    (index : Nat) : MatchState :=
  match t.clauses[index]? with
  | none => s
  | some c =>
    if !s.live.test index then s
    else if outcome = some (c.polarity.test position) then
      let s := { s with unsatisfied := s.unsatisfied.modify index (· - 1) }
      if s.unsatisfied[index]? = some 0 then s.satisfy index c else s
    else s.eliminate index c

end MatchState

structure MatchRun where
  state : MatchState
  probes : List Probe := []

namespace MatchRun

def visit (t : MatchingTables) (predicates : PredicateTable) (evaluate : PredicateEvaluator)
    (r : MatchRun) (position : Nat) (id : PredicateId) : MatchRun :=
  if !r.state.isRelevant t position then r
  else
    match predicates.get? id with
    | none => r
    | some predicate =>
      let outcome := evaluate predicate
      { state := ((t.references[position]?).getD []).foldl
          (MatchState.settle t position outcome.toOption) r.state
        probes := r.probes ++ [⟨predicate, outcome⟩] }

def run (t : MatchingTables) (predicates : PredicateTable) (evaluate : PredicateEvaluator) :
    List (PredicateId × Nat) → MatchRun → MatchRun
  | [], r => r
  | (id, position) :: rest, r =>
    if r.state.undetermined = 0 then r
    else run t predicates evaluate rest (r.visit t predicates evaluate position id)

/-- Whether a predicate failed. -/
def failed (r : MatchRun) : Bool := r.probes.any fun p => p.outcome.toOption.isNone

end MatchRun

/-- A whole run. -/
def MatchingTables.run (t : MatchingTables) (predicates : PredicateTable)
    (evaluate : PredicateEvaluator) : MatchRun :=
  MatchRun.run t predicates evaluate t.order.zipIdx { state := .start t }

/-- The names of the documents that are matched. -/
def MatchingTables.matched (t : MatchingTables) (s : MatchState) : List String :=
  ((t.documentNames.zip s.documents).filter fun d => d.2 == .matched).map (·.1)

end PolicyDecision
