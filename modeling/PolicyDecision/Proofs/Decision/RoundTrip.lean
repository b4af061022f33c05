import PolicyDecision.Decision.Coding
import PolicyDecision.Proofs.Evaluation.Decision
import PolicyDecision.Proofs.Syntax.RoundTrip

/-!
# PolicyDecision.Proofs.Decision.RoundTrip

Decisions read back from their JSON form.

A constraint that is not there is left out. Where the resource is transformed to null, a field with
null is written, but null is read as if there were no field. So such a decision reads back as one
that leaves the resource as it is, and all others read back as they were.

* `Decision.withoutNull`: what is left of a decision.
* `Decision.ofJson?_toJson`: a decision reads back without a null resource.
* `Decision.restored_iff`: it is the same if and only if its resource is not null.
* `Decision.not_restored_nullified`: a document whose decision does not read back.
-/

namespace PolicyDecision

def Json.isNull : Json → Bool
  | .null => true
  | _ => false

namespace Decision

/-- The decision with the resource left as it is where it would be transformed to null. -/
def withoutNull (d : Decision) : Decision := { d with resource := d.resource.filter (!·.isNull) }

@[simp]
theorem ofJson?_outcome (o : Outcome) : Outcome.ofJson? (.string o.name) = some o := by
  cases o <;> rfl

theorem read_resource (f : Fields) (j : Json) :
    f.read "resource" j = some { f with resource := (some j).filter (!·.isNull) } := by
  cases j <;> rfl

theorem ofJson?_toJson (d : Decision) : ofJson? d.toJson = some d.withoutNull := by
  have houtcome (f : Fields) :
      readRecord Fields.read [("decision", .string d.outcome.name)] f =
        some { f with outcome := d.outcome } := by
    simp [readRecord, Fields.read]
  have hresource (f : Fields) (hf : f.resource = none) :
      readRecord Fields.read (d.resource.map fun j => ("resource", j)).toList f =
        some { f with resource := d.resource.filter (!·.isNull) } :=
    readRecord_toList (fun resource => { f with resource := resource.filter (!·.isNull) })
      (by rw [Option.filter_none, ← hf]) (read_resource f) d.resource
  have hobligations (f : Fields) (hf : f.obligations = none) :
      readRecord Fields.read (d.obligations.map fun js => ("obligations", .array js)).toList f =
        some { f with obligations := d.obligations } :=
    readRecord_toList (fun obligations => { f with obligations }) (by rw [← hf]) (fun _ => rfl) _
  have hadvice (f : Fields) (hf : f.advice = none) :
      readRecord Fields.read (d.advice.map fun js => ("advice", .array js)).toList f =
        some { f with advice := d.advice } :=
    readRecord_toList (fun advice => { f with advice }) (by rw [← hf]) (fun _ => rfl) _
  rw [toJson, ofJson?, Option.bind_eq_bind, Option.bind_some]
  beta_reduce
  rw [readRecord_append, readRecord_append, readRecord_append, houtcome, Option.bind_some,
    hresource _ rfl, Option.bind_some, hobligations _ rfl, Option.bind_some, hadvice _ rfl]
  rfl

theorem withoutNull_eq_self_iff (d : Decision) : d.withoutNull = d ↔ d.resource ≠ some .null := by
  obtain ⟨outcome, resource, obligations, advice⟩ := d
  rcases resource with _ | j
  · simp [withoutNull]
  · cases j <;> simp [withoutNull, Json.isNull]

/-- Reading the JSON form of a decision gives the decision without a null resource. So it gives the
decision itself if and only if the resource is not transformed to null. -/
theorem restored_iff (d : Decision) :
    ofJson? d.toJson = some d.withoutNull ∧
      (ofJson? d.toJson = some d ↔ d.resource ≠ some .null) := by
  rw [ofJson?_toJson]
  exact ⟨rfl, by rw [Option.some.injEq, withoutNull_eq_self_iff]⟩

/-- A document that transforms the resource to null. -/
def nullified : Document where
  name := "nullified"
  entitlement := .permit
  transformation := some (.ofJson .null)

/-- Its decision reads back as a permission without a transformation. -/
theorem not_restored_nullified : ∃ d : Decision,
    (Session.run (nullified.evaluate .standard) .empty []).2 = [d] ∧
      d = { permit with resource := some .null } ∧ ofJson? d.toJson = some permit ∧
      ofJson? d.toJson ≠ some d := by
  have hfree : nullified.IsFinderFree := ⟨nofun, rfl, rfl, fun e he => by cases he; rfl⟩
  have hdecision : nullified.evaluate .standard = .just { permit with resource := some .null } :=
    nullified.evaluateFrom_eq_just hfree [] nofun _
  have hread : ofJson? ({ permit with resource := some .null } : Decision).toJson = some permit :=
    rfl
  refine ⟨_, by rw [hdecision]; rfl, rfl, hread, ?_⟩
  rw [hread]
  nofun

end Decision
end PolicyDecision
