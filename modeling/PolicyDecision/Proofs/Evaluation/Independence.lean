import PolicyDecision.Attribute.Finders
import PolicyDecision.Proofs.Evaluation.Bindings
import PolicyDecision.Proofs.Stream.Projection

/-!
# PolicyDecision.Proofs.Evaluation.Independence

What stands behind a statement that does not pass has no influence.

While earlier statements change, a statement is left and evaluated anew many times. To say what it
gives in a run, the values that reach a statement are put among the decisions: `Document.progress`
evaluates a document with every value of every statement.

* `Document.progress`: the evaluation with the values of the statements.
* `Document.progress_projects`: without them it is the evaluation.
* `Document.SharesThrough`: two documents that are the same up to a statement.
* `Document.reports_independent`: they cannot be told apart in a run in which that statement does
  not pass.
-/

namespace PolicyDecision

/-! ## Evaluation with the values of the statements -/

/-- A value of the statement at a position, or a decision. -/
inductive Progress where
  | reached (position : Nat) (value : Val)
  | decided (d : Decision)

def Progress.decision? : Progress → Option Decision
  | .reached _ _ => none
  | .decided d => some d

namespace Document

/-- The evaluation of some statements, the first of which has the given position. -/
def progressFrom (d : Document) : Nat → List Statement → Context → Stream Progress
  | _, [], ctx => (d.constraints ctx).map .decided
  | position, s :: rest, ctx =>
    (s.expression.evaluate ctx).switchMap fun value =>
      .cons (.reached position value)
        (match s.outcome value ctx with
        | .ok ctx => d.progressFrom (position + 1) rest ctx
        | .error decision => .just (.decided decision))

def progress (d : Document) (ctx : Context) : Stream Progress :=
  d.progressFrom 0 d.body (ctx.withImports d.imports)

/-- The statement at a position gives a value with which the next one is evaluated. -/
def Passes (d : Document) (position : Nat) (x : Progress) : Prop :=
  ∃ s v, d.body[position]? = some s ∧ x = .reached position v ∧ s.accepts v

/-- The statement at a position passes somewhere in a run. -/
def PassesIn (d : Document) (position : Nat) (ctx : Context) (now : Snapshot)
    (turns : List Session.Turn) : Prop :=
  ∃ r ∈ Session.reports (d.progress ctx) now turns, ∃ x ∈ r.emitted, d.Passes position x

/-- Two documents with the same imports and the same statements up to and including a position. -/
structure SharesThrough (position : Nat) (d₁ d₂ : Document) : Prop where
  imports : d₁.imports = d₂.imports
  position_lt : position < d₁.body.length
  statements : d₁.body.take (position + 1) = d₂.body.take (position + 1)

/-- Without the values of the statements, this is the evaluation. -/
theorem progressFrom_projects (d : Document) (body : List Statement) (position : Nat)
    (ctx : Context) :
    (d.progressFrom position body ctx).Projects Progress.decision? (fun _ => False)
      (d.evaluateFrom body ctx) := by
  induction body generalizing position ctx with
  | nil => exact Stream.projects_map (g := Progress.decided) (fun _ => rfl) _
  | cons s rest ih =>
    refine Stream.projects_switchMap _ fun v => Stream.projects_of_cons rfl fun _ => ?_
    cases s.outcome v ctx with
    | ok next => exact ih (position + 1) next
    | error decision => exact Stream.projects_just rfl

theorem progress_projects (d : Document) (ctx : Context) :
    (d.progress ctx).Projects Progress.decision? (fun _ => False) (d.evaluate ctx) :=
  d.progressFrom_projects d.body 0 _

/-- Evaluations in which only the statements behind a statement `s` differ, up to a value that `s`
accepts. -/
theorem progressFrom_agrees (d₁ d₂ : Document) (shared : List Statement) (s : Statement)
    (rest₁ rest₂ : List Statement) {stop : Progress → Prop} (position : Nat) (ctx : Context)
    (hstop : ∀ v, s.accepts v → stop (.reached (position + shared.length) v)) :
    (d₁.progressFrom position (shared ++ s :: rest₁) ctx).Projects some stop
      (d₂.progressFrom position (shared ++ s :: rest₂) ctx) := by
  -- Every value of a shared statement leads to a context and a position of its own. Only a value of
  -- `s` can lead to what differs, and then it is a stop.
  induction shared generalizing position ctx with
  | nil =>
    refine Stream.projects_switchMap _ fun v => Stream.projects_cons rfl fun hclear => ?_
    cases houtcome : s.outcome v ctx with
    | ok next => exact absurd (hstop v (Statement.outcome_eq_ok_iff.1 houtcome).1) hclear
    | error decision => exact Stream.projects_just rfl
  | cons first shared ih =>
    refine Stream.projects_switchMap _ fun v => Stream.projects_cons rfl fun _ => ?_
    cases first.outcome v ctx with
    | ok next =>
      refine ih (position + 1) next fun v hv => ?_
      rw [Nat.add_right_comm]
      exact hstop v hv
    | error decision => exact Stream.projects_just rfl

theorem reports_evaluate (d : Document) (ctx : Context) (now : Snapshot)
    (turns : List Session.Turn) : Session.reports (d.evaluate ctx) now turns =
      (Session.reports (d.progress ctx) now turns).map (·.select Progress.decision?) :=
  ((d.progress_projects ctx).reports now turns fun _ _ _ _ => id).symm

/-- The shared statements, the statement at the position, and what differs behind it. -/
theorem SharesThrough.exists_append {d₁ d₂ : Document} {position : Nat}
    (h : SharesThrough position d₁ d₂) : ∃ (shared : List Statement) (s : Statement)
      (rest₁ rest₂ : List Statement), shared.length = position ∧
        d₁.body = shared ++ s :: rest₁ ∧ d₂.body = shared ++ s :: rest₂ := by
  have hlt := h.position_lt
  have htake : d₁.body.take (position + 1) = d₁.body.take position ++ [d₁.body[position]] :=
    List.take_succ_eq_append_getElem hlt
  have hbody (d : Document) (hd : d₁.body.take (position + 1) = d.body.take (position + 1)) :
      d.body = d₁.body.take position ++ d₁.body[position] :: d.body.drop (position + 1) := by
    calc d.body = d.body.take (position + 1) ++ d.body.drop (position + 1) :=
          (List.take_append_drop _ _).symm
      _ = d₁.body.take position ++ [d₁.body[position]] ++ d.body.drop (position + 1) := by
          rw [← hd, htake]
      _ = _ := List.append_assoc _ _ _
  exact ⟨_, _, _, _, List.length_take_of_le (Nat.le_of_lt hlt), hbody d₁ rfl,
    hbody d₂ h.statements⟩

theorem SharesThrough.progress_agrees {d₁ d₂ : Document} {position : Nat}
    (h : SharesThrough position d₁ d₂) (ctx : Context) :
    (d₁.progress ctx).Projects some (d₁.Passes position) (d₂.progress ctx) := by
  obtain ⟨shared, s, rest₁, rest₂, rfl, hbody₁, hbody₂⟩ := h.exists_append
  have hs : d₁.body[shared.length]? = some s := by rw [hbody₁]; simp
  have hstop : ∀ v, s.accepts v → d₁.Passes shared.length (.reached (0 + shared.length) v) := by
    intro v hv
    rw [Nat.zero_add]
    exact ⟨s, v, hs, rfl, hv⟩
  have hagrees :=
    d₁.progressFrom_agrees d₂ shared s rest₁ rest₂ 0 (ctx.withImports d₁.imports) hstop
  rw [← hbody₁, ← hbody₂] at hagrees
  rw [progress, progress, ← h.imports]
  exact hagrees

/-- In a run in which the statement at the position does not pass, or is not reached, two documents
that share it and all before it have the same values of statements, decisions, finder calls and
subscriptions after every step. -/
theorem reports_independent :
    (∀ (d : Document) (ctx : Context) (now : Snapshot) (turns : List Session.Turn),
      Session.reports (d.evaluate ctx) now turns =
        (Session.reports (d.progress ctx) now turns).map (·.select Progress.decision?)) ∧
    ∀ (position : Nat) (d₁ d₂ : Document), SharesThrough position d₁ d₂ →
      ∀ (ctx : Context) (now : Snapshot) (turns : List Session.Turn),
        ¬ d₁.PassesIn position ctx now turns →
        Session.reports (d₁.progress ctx) now turns = Session.reports (d₂.progress ctx) now turns ∧
          Session.reports (d₁.evaluate ctx) now turns =
            Session.reports (d₂.evaluate ctx) now turns := by
  refine ⟨reports_evaluate, fun position d₁ d₂ hshares ctx now turns hpasses => ?_⟩
  have hprogress := (hshares.progress_agrees ctx).reports now turns fun r hr x hx hstop =>
    hpasses ⟨r, hr, x, hx, hstop⟩
  rw [Session.Report.select_some, List.map_id] at hprogress
  exact ⟨hprogress, by rw [reports_evaluate, reports_evaluate, hprogress]⟩

/-! ### Two conditions on live attributes -/

def gateContext : Context :=
  { attributes := ⟨(SortedTable.empty.insert "enabled" (AttributeFinder.live "enabled")).insert
      "level" (AttributeFinder.live "level")⟩ }

def attributeCondition (name : String) : Statement :=
  .condition (.basic (.value (.bool true)) [.attributeFinder name [] false] none)

/-- Permits while both attributes are true. -/
def opening : Document :=
  { name := "opening", entitlement := .permit
    body := [attributeCondition "enabled", attributeCondition "level"] }

/-- Behind the same conditions, a third one and an obligation. -/
def closing : Document :=
  { name := "closing", entitlement := .deny
    body := opening.body ++ [.condition (.ofJson (.bool false))]
    obligations := [.ofJson (.string "log")] }

/-- The first condition changes, and the second one is evaluated twice: its attribute is false. -/
def lowLevel : List Session.Turn :=
  [.push "enabled" (.ofBool true), .push "level" (.ofBool false), .push "enabled" (.ofBool false),
    .push "enabled" (.ofBool true), .close "level"]

theorem emitted_opening :
    ((Session.reports (opening.progress gateContext) .empty lowLevel).map (·.emitted)).flatten =
      [.reached 0 (.ofBool true), .reached 1 (.ofBool false), .decided .notApplicable,
        .reached 0 (.ofBool false), .decided .notApplicable, .reached 0 (.ofBool true),
        .reached 1 (.ofBool false), .decided .notApplicable] := rfl

theorem reports_independent_gate :
    SharesThrough 1 opening closing ∧ ¬ opening.PassesIn 1 gateContext .empty lowLevel ∧
      Session.reports (opening.evaluate gateContext) .empty lowLevel =
        Session.reports (closing.evaluate gateContext) .empty lowLevel := by
  have hshares : SharesThrough 1 opening closing := ⟨rfl, by decide, rfl⟩
  have hpasses : ¬ opening.PassesIn 1 gateContext .empty lowLevel := by
    rintro ⟨r, hr, x, hx, s, v, hs, rfl, hv⟩
    have hemitted := List.mem_flatten_of_mem (List.mem_map_of_mem (f := (·.emitted)) hr) hx
    rw [emitted_opening] at hemitted
    have hfalse : v = .ofBool false := by simpa using hemitted
    cases hs
    rw [hfalse] at hv
    cases hv
  exact ⟨hshares, hpasses, (reports_independent.2 1 _ _ hshares _ _ _ hpasses).2⟩

end Document
end PolicyDecision
