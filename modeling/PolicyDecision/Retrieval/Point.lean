import PolicyDecision.Index.DocumentIndex

/-!
# PolicyDecision.Retrieval.Point

The place where the current index is kept.

* `RetrievalPoint.apply`: a batch that is refused leaves the current index in place.
* `RetrievalPoint.retrieve`: a retrieval from the current index.
* `Follower.poll`: retrievals that follow the updates. The first poll shows the current index, a
  later one shows it if it was replaced since the last poll, and only its latest state. Once the
  point is closed there are no more updates to wait for.
-/

namespace PolicyDecision

structure RetrievalPoint where
  index : DocumentIndex
  /-- How often the index was replaced. -/
  revision : Nat := 0
  /-- The attribute finders, functions, patterns and variables of every evaluation. -/
  context : Context
  isOpen : Bool := true

namespace RetrievalPoint

def create (c : Configuration) (attributes : AttributeRegistry) (functions : FunctionLibrary)
    (patterns : PatternDialect := .standard) : Except Error RetrievalPoint :=
  match c.validate with
  | .error e => .error e
  | .ok () =>
    match Context.bindAll { attributes, functions, patterns } c.globals.entries with
    | .error e => .error e
    | .ok context => .ok { index := .create c.index, context }

def contextFor (p : RetrievalPoint) (s : Subscription) : Context := p.context.subscribe s

def apply (p : RetrievalPoint) (batch : UpdateBatch) : Except Error RetrievalPoint :=
  match p.index.apply batch with
  | .ok index => .ok { p with index, revision := p.revision + 1 }
  | .error e => .error e

def retrieve (p : RetrievalPoint) (s : Subscription) : Retrieval :=
  p.index.retrieve (targetEvaluator (p.contextFor s))

/-- No updates follow. -/
def close (p : RetrievalPoint) : RetrievalPoint := { p with isOpen := false }

end RetrievalPoint

inductive Poll where
  | item (r : Retrieval)
  | pending
  | ended

structure Follower where
  evaluate : PredicateEvaluator
  /-- The revision that was seen last; before the first poll, the one when the follower was made. -/
  seen : Nat
  /-- Nothing was shown so far. -/
  isNew : Bool := true

namespace Follower

def ofSubscription (p : RetrievalPoint) (s : Subscription) : Follower :=
  { evaluate := targetEvaluator (p.contextFor s), seen := p.revision }

/-- Whether there is a revision to show. The first poll does not look at what was seen. -/
def isDue (f : Follower) (p : RetrievalPoint) : Bool := f.isNew || f.seen != p.revision

def poll (f : Follower) (p : RetrievalPoint) : Poll × Follower :=
  if f.isDue p then
    (.item (p.index.retrieve f.evaluate), { f with seen := p.revision, isNew := false })
  else if p.isOpen then (.pending, f)
  else (.ended, f)

end Follower
end PolicyDecision
