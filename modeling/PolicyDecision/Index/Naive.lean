import PolicyDecision.Index.Update
import PolicyDecision.Retrieval.Basic

/-!
# PolicyDecision.Index.Naive

The index that evaluates every target on its own.

* `NaiveIndex.apply`: the index after a batch of updates.
* `NaiveIndex.retrieve`: every document whose target holds.
-/

namespace PolicyDecision

structure NaiveIndex where
  version : Nat
  consistent : Bool
  documents : SortedTable Document

namespace NaiveIndex

def empty : NaiveIndex := ⟨0, true, .empty⟩

instance : Inhabited NaiveIndex := ⟨empty⟩

def publications (index : NaiveIndex) : Publications Unit Document :=
  ⟨index.documents, (), index.consistent⟩

def apply (index : NaiveIndex) (batch : UpdateBatch) : Except Error NaiveIndex :=
  match index.publications.applyAll (fun d _ => (d, ())) batch.updates with
  | .ok p => .ok ⟨index.version + 1, p.consistent, p.documents⟩
  | .error e => .error e

/-- The outcome of the target of a document, with the predicate that was evaluated for it. -/
def outcome (evaluate : PredicateEvaluator) (d : Document) : Except Error Bool × List Probe :=
  match d.resolvedTarget? with
  | none => (.ok true, [])
  | some target =>
    let outcome := evaluate target
    (outcome, [⟨target, outcome⟩])

def retrieve (index : NaiveIndex) (evaluate : PredicateEvaluator) : Retrieval :=
  if !index.consistent then .inconsistent
  else
    let outcomes := index.documents.values.map fun d => (d, outcome evaluate d)
    { matching := (outcomes.filter fun o => o.2.1.toOption == some true).map (·.1)
      errorOccurred := outcomes.any fun o => o.2.1.toOption.isNone
      consistent := true
      erroneous := []
      probes := outcomes.flatMap fun o => o.2.2 }

instance : BEq NaiveIndex where
  beq a b := a.version == b.version && a.consistent == b.consistent &&
    a.documents.entries == b.documents.entries

end NaiveIndex
end PolicyDecision
