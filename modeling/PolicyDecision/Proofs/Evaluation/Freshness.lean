import PolicyDecision.Attribute.Finders
import PolicyDecision.Proofs.Stream.Session

/-!
# PolicyDecision.Proofs.Evaluation.Freshness

No stale results of evaluations.

An evaluation is a tree of combinations and switches over live attributes. While the deliveries of
one push take place it emits values in which old and new attribute values are mixed; the last one is
the value that the evaluation would begin with now.

* `AttributeRegistry.IsReady`: live attributes that hold a value, and attributes of one value.
* `evaluate_fresh`: after every push the last value, or decision, is up to date.
-/

namespace PolicyDecision

/-- Every attribute gives one value and ends, or is a live one that holds a value and is open. -/
def AttributeRegistry.IsReady (registry : AttributeRegistry) (now : Snapshot) : Prop :=
  ∀ name finder, registry.finders.get? name = some finder → ∀ parent arguments bindings,
    (∃ v, finder parent arguments bindings = .values [v]) ∨
      ∃ source v, finder parent arguments bindings = .live source ∧ now source = ⟨[v], false⟩

/-- The sources that hold a value and are open. -/
def Snapshot.ready (now : Snapshot) (source : String) : Prop := ∃ v, now source = ⟨[v], false⟩

theorem Snapshot.isWarm_ready (now : Snapshot) : now.IsWarm now.ready := by
  rintro source ⟨v, hv⟩
  rw [latest, hv]
  rfl

theorem AttributeRegistry.IsReady.isWarm {registry : AttributeRegistry} {now : Snapshot}
    (h : registry.IsReady now) : registry.IsWarm now.ready := by
  intro name finder hfinder parent arguments bindings
  rcases h name finder hfinder parent arguments bindings with hv | ⟨source, v, hlive, hv⟩
  · exact .inl hv
  · exact .inr ⟨source, ⟨v, hv⟩, hlive⟩

/-- After every push, the last value of an expression is the first one of a new evaluation under
the latest values of the attributes; so is the last decision of a document. -/
theorem evaluate_fresh {ctx : Context} {now : Snapshot} (h : ctx.attributes.IsReady now)
    (pushes : List (String × Val)) :
    (∀ e : Expression, (∀ head ∈ e.headFlags, head = false) →
      ∃ v, (Session.follow (e.evaluate ctx) now pushes).getLast? = some v ∧
        (Session.start (e.evaluate ctx) (now.pushAll pushes)).2.head? = some v) ∧
    ∀ d : Document, (∀ head ∈ d.headFlags, head = false) →
      ∃ decision, (Session.follow (d.evaluate ctx) now pushes).getLast? = some decision ∧
        (Session.start (d.evaluate ctx) (now.pushAll pushes)).2.head? = some decision := by
  have hadmits := StreamClass.admits_warm now.ready
  constructor
  · intro e he
    obtain ⟨value, hsettles⟩ := hadmits.evaluate e he ctx h.isWarm
    exact hsettles.last_follow now.isWarm_ready pushes
  · intro d hd
    obtain ⟨value, hsettles⟩ := hadmits.evaluateDocument d hd ctx h.isWarm
    exact hsettles.last_follow now.isWarm_ready pushes

/-- One live attribute. -/
def levelContext : Context :=
  { attributes := ⟨SortedTable.empty.insert "level" (AttributeFinder.live "level")⟩ }

def levelExpression : Expression := .basic (.value (.bool true)) [.attributeFinder "level" [] false] none

def levelDocument : Document :=
  { name := "level", entitlement := .permit, body := [.condition levelExpression] }

/-- The attribute holds `true`. -/
def levelSnapshot : Snapshot := fun _ => ⟨[.ofBool true], false⟩

theorem evaluate_fresh_level :
    levelContext.attributes.IsReady levelSnapshot ∧
      (∃ v, (Session.follow (levelExpression.evaluate levelContext) levelSnapshot
        [("level", .ofBool false)]).getLast? = some v ∧
        (Session.start (levelExpression.evaluate levelContext)
          (levelSnapshot.pushAll [("level", .ofBool false)])).2.head? = some v) ∧
      ∃ decision, (Session.follow (levelDocument.evaluate levelContext) levelSnapshot
        [("level", .ofBool false)]).getLast? = some decision ∧
        (Session.start (levelDocument.evaluate levelContext)
          (levelSnapshot.pushAll [("level", .ofBool false)])).2.head? = some decision := by
  have hready : levelContext.attributes.IsReady levelSnapshot := by
    intro name finder hfinder parent arguments bindings
    rw [SortedTable.get?_eq_some_iff] at hfinder
    rcases SortedTable.mem_entries_insert hfinder with heq | hempty
    · cases heq
      exact .inr ⟨"level", .ofBool true, rfl, rfl⟩
    · cases hempty
  have hfresh := evaluate_fresh hready [("level", .ofBool false)]
  exact ⟨hready, hfresh.1 levelExpression (by decide), hfresh.2 levelDocument (by decide)⟩

example : Session.follow (levelExpression.evaluate levelContext) levelSnapshot
    [("level", .ofBool false)] = [.ofBool true, .ofBool false] := rfl

end PolicyDecision
