import PolicyDecision.Configuration.Basic
import PolicyDecision.Text.Quoted

/-!
# PolicyDecision.Index.DocumentIndex

An index of either kind. It is never changed: a batch of updates makes a new one.

* `DocumentIndex.apply`, `DocumentIndex.retrieve`.
* `CanonicalIndex.summary`: an index in short.
-/

namespace PolicyDecision

inductive DocumentIndex where
  | canonical (index : CanonicalIndex)
  | naive (index : NaiveIndex)

namespace DocumentIndex

/-- An index without documents. -/
def create (o : IndexOptions) : DocumentIndex :=
  match o.kind with
  | .canonical => canonical (.empty o.maxClauses o.predicateOrder.strategy)
  | .naive => naive .empty

instance : Inhabited DocumentIndex := ⟨naive .empty⟩

def version : DocumentIndex → Nat
  | canonical index => index.version
  | naive index => index.version

def isConsistent : DocumentIndex → Bool
  | canonical index => index.consistent
  | naive index => index.consistent

def documents : DocumentIndex → SortedTable Document
  | canonical index => index.documents.map (·.document)
  | naive index => index.documents

def size (index : DocumentIndex) : Nat := index.documents.size

def isEmpty (index : DocumentIndex) : Bool := index.size == 0

def names (index : DocumentIndex) : List String := index.documents.keys

def document? (index : DocumentIndex) (name : String) : Option Document := index.documents.get? name

def apply (index : DocumentIndex) (batch : UpdateBatch) : Except Error DocumentIndex :=
  match index with
  | canonical index => (index.apply batch).map canonical
  | naive index => (index.apply batch).map naive

def retrieve (index : DocumentIndex) (evaluate : PredicateEvaluator) : Retrieval :=
  match index with
  | canonical index => index.retrieve evaluate
  | naive index => index.retrieve evaluate

instance : BEq DocumentIndex where
  beq
    | canonical a, canonical b => a == b
    | naive a, naive b => a == b
    | _, _ => false

end DocumentIndex

/-- Version, consistency, the names of the documents, and the numbers of clauses and predicates. -/
def CanonicalIndex.summary (index : CanonicalIndex) : String :=
  "CanonicalIndexSnapshot \x7b version: " ++ toString index.version ++
    ", consistent: " ++ (if index.consistent then "true" else "false") ++
    ", documents: [" ++ ", ".intercalate (index.documents.keys.map Text.quoted) ++
    "], clauses: " ++ toString index.tables.clauses.length ++
    ", predicates: " ++ toString index.tables.order.length ++ " \x7d"

end PolicyDecision
