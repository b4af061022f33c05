import PolicyDecision.Decision.Basic
import PolicyDecision.Evaluation.Evaluate
import PolicyDecision.Syntax.Build
import PolicyDecision.Syntax.Document

/-!
# PolicyDecision.Evaluation.Document

Evaluating documents to streams of decisions.

* `Flow.firstValue?`: the first value of an evaluation, if it does not wait for ever.
* `Document.evaluate`: statements are evaluated in order, each only while all before it hold; then
  the constraints decide.
* `matchesTarget?`: whether a target applies.
-/

namespace PolicyDecision

/-- The first item of a flow with the calls before it; none if it waits, undefined if it ends
without an item. -/
def Flow.firstValue? (w : Flow Val) : Option Val :=
  match w.first.items with
  | v :: _ => some v
  | [] => if w.rest.isEnded then some .undefined else none

/-- An evaluation up to its first value. -/
def Expression.firstFlow (e : Expression) (ctx : Context) (now : Snapshot) : Flow Val :=
  (Stream.first (e.evaluate ctx)) now []

/-- Nothing is known of any live source. -/
def Snapshot.empty : Snapshot := fun _ => {}

/-- The value of a target in a context, which has to be a boolean. -/
def matchesTarget? (target : Option Expression) (ctx : Context) (now : Snapshot) : Option Val :=
  match target with
  | none => some (.ofBool true)
  | some e => ((e.evaluate ctx.forTarget now []).firstValue?).map (·.requireBool "Target")

/-! ## Bodies -/

def Entitlement.outcome : Entitlement → Outcome
  | .permit => .permit
  | .deny => .deny

/-- The elements of an array that has some. -/
def nonEmptyItems? (v : Val) : Option (List Json) :=
  match v.items? with
  | some (j :: js) => some (j :: js)
  | _ => none

/-- The decision of a document whose statements hold, from its obligations, its advice and its
transformation. -/
def decisionOf (entitlement : Entitlement) (obligations advice transformation : Val) : Decision :=
  match Val.firstError? [obligations, advice, transformation] with
  | some _ => .indeterminate
  | none =>
    ⟨entitlement.outcome, transformation.json?, nonEmptyItems? obligations, nonEmptyItems? advice⟩

def Document.constraints (d : Document) (ctx : Context) : Stream Decision :=
  .combineLatest
    [(Expression.array d.obligations).evaluate ctx, (Expression.array d.advice).evaluate ctx,
      match d.transformation with
      | some e => e.evaluate ctx
      | none => .just .undefined]
    fun values =>
      match values with
      | [obligations, advice, transformation] =>
        decisionOf d.entitlement obligations advice transformation
      | _ => .indeterminate

/-- What a statement makes of a value: the context for the statements after it, or the decision
that ends the document. -/
def Statement.outcome (s : Statement) (value : Val) (ctx : Context) : Except Decision Context :=
  match s with
  | .condition _ =>
    match value.bool? with
    | some true => .ok ctx
    | some false => .error .notApplicable
    | none => .error .indeterminate
  | .valueDefinition name _ =>
    if value.isError then .error .indeterminate
    else
      match ctx.bind name value with
      | .ok ctx => .ok ctx
      | .error _ => .error .indeterminate

def Statement.expression : Statement → Expression
  | .condition e => e
  | .valueDefinition _ e => e

def Document.evaluateFrom (d : Document) : List Statement → Context → Stream Decision
  | [], ctx => d.constraints ctx
  | s :: rest, ctx =>
    (s.expression.evaluate ctx).switchMap fun value =>
      match s.outcome value ctx with
      | .ok ctx => d.evaluateFrom rest ctx
      | .error decision => .just decision

/-- The context carries the subscription. The target is not looked at. -/
def Document.evaluate (d : Document) (ctx : Context) : Stream Decision :=
  d.evaluateFrom d.body (ctx.withImports d.imports)

end PolicyDecision
