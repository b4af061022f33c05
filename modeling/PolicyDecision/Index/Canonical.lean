import PolicyDecision.Index.Compilation
import PolicyDecision.Index.Matching
import PolicyDecision.Index.Update

/-!
# PolicyDecision.Index.Canonical

The index that compiles targets into formulas over shared predicates.

* `CanonicalIndex.apply`: the index after a batch of updates. A document whose target cannot be
  compiled always applies. Predicates that no formula references any more are dropped.
* `CanonicalIndex.retrieve`: the documents whose formula holds.
-/

namespace PolicyDecision

structure IndexedDocument where
  document : Document
  formula : Formula
  compileError : Option Error

namespace IndexedDocument

def rename (f : PredicateId → PredicateId) (d : IndexedDocument) : IndexedDocument :=
  { d with formula := d.formula.rename f }

instance : BEq IndexedDocument where
  beq a b := a.document == b.document && a.formula == b.formula && a.compileError == b.compileError

end IndexedDocument

def defaultMaxClauses : Nat := 1024

structure CanonicalIndex where
  version : Nat := 0
  consistent : Bool := true
  maxClauses : Nat := defaultMaxClauses
  strategy : OrderStrategy := mostReferencedFirst
  predicates : PredicateTable := .empty
  documents : SortedTable IndexedDocument := .empty
  tables : MatchingTables := {}

namespace CanonicalIndex

def empty (maxClauses : Nat) (strategy : OrderStrategy) : CanonicalIndex :=
  { maxClauses, strategy }

instance : Inhabited CanonicalIndex := ⟨{}⟩

/-- Compile a document; one that cannot be compiled gets the formula `true`. -/
def compile (maxClauses : Nat) (d : Document) (predicates : PredicateTable) :
    IndexedDocument × PredicateTable :=
  match compileTarget d.imports maxClauses d.target predicates with
  | (.ok formula, predicates) => (⟨d, formula, none⟩, predicates)
  | (.error e, predicates) => (⟨d, .constant true, some e⟩, predicates)

/-- The predicates that some formula references. -/
def referenced (documents : SortedTable IndexedDocument) : OrderedSet PredicateId :=
  .ofList (documents.values.flatMap fun d => d.formula.predicates.items)

/-- Drop the predicates that no formula references. -/
def compact (p : Publications PredicateTable IndexedDocument) :
    Publications PredicateTable IndexedDocument :=
  let live := referenced p.documents
  if live.size < p.state.size then
    { p with
      documents := p.documents.map (IndexedDocument.rename (p.state.renumber live))
      state := p.state.compacted live }
  else p

def publications (index : CanonicalIndex) : Publications PredicateTable IndexedDocument :=
  ⟨index.documents, index.predicates, index.consistent⟩

def formulas (documents : SortedTable IndexedDocument) : List (String × Formula) :=
  documents.entries.map fun d => (d.1, d.2.formula)

def apply (index : CanonicalIndex) (batch : UpdateBatch) : Except Error CanonicalIndex :=
  match index.publications.applyAll (compile index.maxClauses) batch.updates with
  | .error e => .error e
  | .ok p =>
    let p := compact p
    .ok { index with
      version := index.version + 1
      consistent := p.consistent
      predicates := p.state
      documents := p.documents
      tables := .build (formulas p.documents) index.strategy }

/-- The documents that a run has matched. -/
def matchedDocuments (index : CanonicalIndex) (r : MatchRun) : List IndexedDocument :=
  (index.tables.matched r.state).filterMap index.documents.get?

def retrieve (index : CanonicalIndex) (evaluate : PredicateEvaluator) : Retrieval :=
  if !index.consistent then .inconsistent
  else
    let r := index.tables.run index.predicates evaluate
    let found := index.matchedDocuments r
    let erroneous := found.filter fun d => d.compileError.isSome
    { matching := found.map (·.document)
      errorOccurred := r.failed || !erroneous.isEmpty
      consistent := true
      erroneous := erroneous.map (·.document.name)
      probes := r.probes }

/-- Indexes are the same when their contents are; strategies are not compared. -/
instance : BEq CanonicalIndex where
  beq a b := a.version == b.version && a.consistent == b.consistent &&
    a.maxClauses == b.maxClauses && a.predicates == b.predicates &&
    a.documents.entries == b.documents.entries && a.tables == b.tables

end CanonicalIndex
end PolicyDecision
