import PolicyDecision.Proofs.Evaluation.SingleValued
import PolicyDecision.Proofs.Stream.Emission

/-!
# PolicyDecision.Proofs.Evaluation.Decision

The decisions of documents.

Without attribute steps a document is read from its first statement on, each in the scope that the
definitions before it leave. The first statement that does not pass decides; if all of them pass,
the constraints do.

* `Statement.passes`, `Statement.refusal`: what a statement makes of its scope.
* `Document.scopeAt`: the scope of a statement, and that of the constraints.
* `Document.evaluateFrom_eq_just`: the stream of decisions is the one decision of this reading.
* `Document.decide_of_first`, `Document.decide_of_all`: the first statement that does not pass
  decides, or else the constraints.
* `Document.yields_evaluate`: with attribute steps too, every decision is one of the three kinds.
* `Document.evaluate_decides`: all of this about the evaluation of documents.
-/

namespace PolicyDecision

/-! ## Statements -/

/-- A variable, over an earlier binding of its name. -/
def Scope.bind (s : Scope) (name : String) (v : Val) : Scope :=
  { s with valueOf := fun other => if other = name then v else s.valueOf other }

namespace Statement

/-- A condition has to be true; a definition has to have a value, and a name that is not the
subscription's. -/
def passes (s : Scope) : Statement → Bool
  | .condition e => (e.denote s).bool? == some true
  | .valueDefinition name e => !(e.denote s).isError && !isReserved name

/-- The scope of the statements after one that passes. -/
def scopeAfter (s : Scope) : Statement → Scope
  | .condition _ => s
  | .valueDefinition name e => s.bind name (e.denote s)

/-- The decision where a statement does not pass. -/
def refusal (s : Scope) : Statement → Decision
  | .condition e => if (e.denote s).bool? = some false then .notApplicable else .indeterminate
  | .valueDefinition _ _ => .indeterminate

end Statement

/-- The scope after statements that pass. -/
def Scope.after (s : Scope) (statements : List Statement) : Scope :=
  statements.foldl Statement.scopeAfter s

theorem Context.scope_bind {ctx ctx' : Context} {name : String} {v : Val}
    (h : ctx.bind name v = .ok ctx') : ctx'.scope = ctx.scope.bind name v := by
  rw [Context.bind] at h
  split at h
  · cases h
  · cases h
    have hvalue : ∀ other, ((Entries.put name v ctx.bindings).lookup other).getD .undefined =
        if other = name then v else (ctx.bindings.lookup other).getD .undefined := by
      intro other
      by_cases ho : other = name
      · subst ho
        rw [Entries.lookup_put_self, if_pos rfl, Option.getD_some]
      · rw [Entries.lookup_put_ne v ctx.bindings ho, if_neg ho]
    exact congrArg (Scope.mk _ _ · _) (funext hvalue)

/-- The value of a statement settles whether it passes. -/
theorem Statement.outcome_cases (s : Statement) (ctx : Context) :
    (s.passes ctx.scope = true ∧ ∃ ctx',
      s.outcome (s.expression.denote ctx.scope) ctx = .ok ctx' ∧
        ctx'.scope = s.scopeAfter ctx.scope) ∨
    (s.passes ctx.scope = false ∧
      s.outcome (s.expression.denote ctx.scope) ctx = .error (s.refusal ctx.scope)) := by
  generalize hv : s.expression.denote ctx.scope = v
  cases s with
  | condition e =>
    obtain rfl : e.denote ctx.scope = v := hv
    simp only [Statement.passes, Statement.outcome, Statement.refusal]
    rcases (e.denote ctx.scope).bool? with _ | _ | _
    · exact .inr ⟨rfl, rfl⟩
    · exact .inr ⟨rfl, rfl⟩
    · exact .inl ⟨rfl, ctx, rfl, rfl⟩
  | valueDefinition name e =>
    obtain rfl : e.denote ctx.scope = v := hv
    rw [Statement.passes, Statement.outcome]
    by_cases herror : (e.denote ctx.scope).isError = true
    · rw [if_pos herror, herror]
      exact .inr ⟨rfl, rfl⟩
    · rw [if_neg herror, Bool.eq_false_iff.2 herror]
      cases hname : isReserved name with
      | true =>
        rw [Context.bind, if_pos hname]
        exact .inr ⟨rfl, rfl⟩
      | false =>
        have hbind : ctx.bind name (e.denote ctx.scope) =
            .ok { ctx with bindings := Entries.put name (e.denote ctx.scope) ctx.bindings } := by
          rw [Context.bind, hname]
          rfl
        rw [hbind]
        exact .inl ⟨rfl, _, rfl, Context.scope_bind hbind⟩

/-! ## Documents -/

/-- Some elements, or nothing instead of an empty list. -/
def Val.someDefined (values : List Val) : Option (List Json) :=
  match values.filterMap json? with
  | [] => none
  | items => some items

theorem Val.isError_arrayOf (values : List Val) :
    (arrayOf values).isError = values.any isError := by
  rw [arrayOf, orFirstError]
  cases h : values.find? isError with
  | none =>
    refine (Bool.eq_false_iff.2 fun hany => ?_).symm
    obtain ⟨v, hv, herror⟩ := List.any_eq_true.1 hany
    exact List.find?_eq_none.1 h v hv herror
  | some v =>
    rw [List.find?_some h]
    exact (List.any_eq_true.2 ⟨v, List.mem_of_find?_eq_some h, List.find?_some h⟩).symm

theorem Val.nonEmptyItems?_arrayOf {values : List Val} (h : values.any isError = false) :
    nonEmptyItems? (arrayOf values) = someDefined values := by
  have hnone : values.find? isError = none := by
    rw [List.find?_eq_none]
    intro v hv herror
    exact Bool.eq_false_iff.1 h (List.any_eq_true.2 ⟨v, hv, herror⟩)
  rw [arrayOf, orFirstError, hnone, someDefined]
  cases values.filterMap json? <;> rfl

namespace Document

/-- Nothing that the evaluation of the document reaches has an attribute step. -/
structure IsFinderFree (d : Document) : Prop where
  body : ∀ s ∈ d.body, s.expression.containsFinder = false
  obligations : Expression.anyContains d.obligations = false
  advice : Expression.anyContains d.advice = false
  transformation : ∀ e, d.transformation = some e → e.containsFinder = false

/-- The value of the transformation; without one there is none. -/
def transformed (d : Document) (s : Scope) : Val :=
  match d.transformation with
  | some e => e.denote s
  | none => .undefined

/-- The decision of a document all of whose statements pass. -/
def constrained (d : Document) (s : Scope) : Decision :=
  let obligations := denoteAll d.obligations s
  let advice := denoteAll d.advice s
  let transformed := d.transformed s
  if (obligations ++ advice ++ [transformed]).any Val.isError then .indeterminate
  else
    { outcome := d.entitlement.outcome
      resource := transformed.json?
      obligations := Val.someDefined obligations
      advice := Val.someDefined advice }

/-- The decision, from some statement on. -/
def decide (d : Document) : List Statement → Scope → Decision
  | [], s => d.constrained s
  | t :: rest, s => if t.passes s then d.decide rest (t.scopeAfter s) else t.refusal s

/-- The scope of the statement at a position, which all statements before it have passed. -/
def scopeAt (d : Document) (ctx : Context) (position : Nat) : Scope :=
  (ctx.withImports d.imports).scope.after (d.body.take position)

/-! ### One decision -/

theorem decisionOf_eq (d : Document) (s : Scope) :
    decisionOf d.entitlement (.arrayOf (denoteAll d.obligations s))
      (.arrayOf (denoteAll d.advice s)) (d.transformed s) = d.constrained s := by
  have hchecked (obligations advice transformation : Val) :
      decisionOf d.entitlement obligations advice transformation =
        if [obligations, advice, transformation].any Val.isError then .indeterminate
        else ⟨d.entitlement.outcome, transformation.json?, nonEmptyItems? obligations,
          nonEmptyItems? advice⟩ := by
    cases obligations <;> cases advice <;> cases transformation <;> rfl
  rw [hchecked, constrained]
  simp only [List.any_append, List.any_cons, List.any_nil, Bool.or_false, Val.isError_arrayOf,
    ← Bool.or_assoc]
  split
  · rfl
  · rename_i hnone
    simp only [Bool.or_eq_true, not_or, Bool.not_eq_true] at hnone
    rw [Val.nonEmptyItems?_arrayOf hnone.1.1, Val.nonEmptyItems?_arrayOf hnone.1.2]

theorem constraints_eq_just (d : Document) (h : d.IsFinderFree) (ctx : Context) :
    d.constraints ctx = .just (d.constrained ctx.scope) := by
  have harray (es : List Expression) (hes : Expression.anyContains es = false) :
      (Expression.array es).evaluate ctx = .just (.arrayOf (denoteAll es ctx.scope)) :=
    Expression.evaluate_eq_just _ (.inr (by simpa [Expression.array, Expression.ofHead,
      Expression.containsFinder, Expression.headContains, Expression.stepsContain,
      Expression.tailContains] using hes))
  rw [← decisionOf_eq, constraints, harray _ h.obligations, harray _ h.advice]
  cases ht : d.transformation with
  | none =>
    rw [transformed, ht]
    exact Stream.combineLatest_just _ [_, _, _]
  | some e =>
    rw [transformed, ht]
    simp only [e.evaluate_eq_just (.inr (h.transformation e ht))]
    exact Stream.combineLatest_just _ [_, _, _]

theorem evaluateFrom_eq_just (d : Document) (h : d.IsFinderFree) (statements : List Statement)
    (hs : ∀ s ∈ statements, s.expression.containsFinder = false) (ctx : Context) :
    d.evaluateFrom statements ctx = .just (d.decide statements ctx.scope) := by
  induction statements generalizing ctx with
  | nil => exact d.constraints_eq_just h ctx
  | cons s rest ih =>
    rw [List.forall_mem_cons] at hs
    rw [evaluateFrom, s.expression.evaluate_eq_just (.inr hs.1), decide]
    refine Stream.switchMap_just _ _ _ ?_
    rcases s.outcome_cases ctx with ⟨hpasses, ctx', houtcome, hscope⟩ | ⟨hpasses, houtcome⟩
    · rw [houtcome, hpasses, if_pos rfl, ← hscope]
      exact ih hs.2 ctx'
    · rw [houtcome, hpasses]
      rfl

/-! ### What decides -/

theorem decide_of_all (d : Document) (statements : List Statement) (s : Scope)
    (h : ∀ i (t : Statement), statements[i]? = some t →
      t.passes (s.after (statements.take i)) = true) :
    d.decide statements s = d.constrained (s.after statements) := by
  induction statements generalizing s with
  | nil => rfl
  | cons t rest ih =>
    have hfirst : t.passes s = true := h 0 t rfl
    rw [decide, hfirst, if_pos rfl]
    exact ih (t.scopeAfter s) fun i u hu => h (i + 1) u hu

theorem decide_of_first (d : Document) {statements : List Statement} {k : Nat} {t : Statement}
    (s : Scope) (ht : statements[k]? = some t)
    (h : ∀ i (u : Statement), i < k → statements[i]? = some u →
      u.passes (s.after (statements.take i)) = true)
    (hfails : t.passes (s.after (statements.take k)) = false) :
    d.decide statements s = t.refusal (s.after (statements.take k)) := by
  induction statements generalizing s k with
  | nil => cases ht
  | cons u rest ih =>
    cases k with
    | zero =>
      cases ht
      have hfirst : t.passes s = false := hfails
      rw [decide, hfirst]
      rfl
    | succ k =>
      have hfirst : u.passes s = true := h 0 u (Nat.zero_lt_succ k) rfl
      rw [decide, hfirst, if_pos rfl]
      exact ih (u.scopeAfter s) ht (fun i v hi hv => h (i + 1) v (Nat.succ_lt_succ hi) hv) hfails

/-! ### Every decision -/

/-- The decisions that a document can give: without constraints that it does not apply or that it
cannot be decided, and else its entitlement, where no list of constraints is empty. -/
def Gives (d : Document) (x : Decision) : Prop :=
  x = .notApplicable ∨ x = .indeterminate ∨
    (x.outcome = d.entitlement.outcome ∧ x.obligations ≠ some [] ∧ x.advice ≠ some [])

theorem gives_decisionOf (d : Document) (obligations advice transformation : Val) :
    d.Gives (decisionOf d.entitlement obligations advice transformation) := by
  have hitems (v : Val) : nonEmptyItems? v ≠ some [] := by
    rw [nonEmptyItems?]
    split <;> simp
  rw [decisionOf]
  split
  · exact .inr (.inl rfl)
  · exact .inr (.inr ⟨rfl, hitems _, hitems _⟩)

theorem gives_of_outcome_error (d : Document) {s : Statement} {v : Val} {ctx : Context}
    {x : Decision} (h : s.outcome v ctx = .error x) : d.Gives x := by
  cases s with
  | condition e =>
    rw [Statement.outcome] at h
    split at h
    · cases h
    · exact .inl (Except.error.inj h).symm
    · exact .inr (.inl (Except.error.inj h).symm)
  | valueDefinition name e =>
    rw [Statement.outcome] at h
    split at h
    · exact .inr (.inl (Except.error.inj h).symm)
    · split at h
      · cases h
      · exact .inr (.inl (Except.error.inj h).symm)

theorem yields_evaluateFrom (d : Document) (statements : List Statement) (ctx : Context) :
    (d.evaluateFrom statements ctx).Yields d.Gives := by
  induction statements generalizing ctx with
  | nil =>
    rw [evaluateFrom, constraints]
    refine Stream.yields_combineLatest (fun values => ?_) _
    split
    · exact d.gives_decisionOf _ _ _
    · exact .inr (.inl rfl)
  | cons s rest ih =>
    refine Stream.yields_switchMap _ fun value => ?_
    split
    · exact ih _
    · rename_i x hx
      exact Stream.yields_just (d.gives_of_outcome_error hx)

/-- Without attribute steps a document gives one decision and ends. The first statement that does
not pass makes it; if all of them pass, the constraints do. With attribute steps too, whatever
happens to live attributes, a document gives no other decisions than that it does not apply, that it
cannot be decided, and its entitlement. -/
theorem evaluate_decides (d : Document) (ctx : Context) :
    (d.IsFinderFree → ∃ decision,
      (∀ now place, (d.evaluate ctx now place).IsSingle decision) ∧
      (∀ k (t : Statement), d.body[k]? = some t →
        (∀ i (u : Statement), i < k → d.body[i]? = some u → u.passes (d.scopeAt ctx i) = true) →
        t.passes (d.scopeAt ctx k) = false → decision = t.refusal (d.scopeAt ctx k)) ∧
      ((∀ i (t : Statement), d.body[i]? = some t → t.passes (d.scopeAt ctx i) = true) →
        decision = d.constrained (d.scopeAt ctx d.body.length))) ∧
    ∀ now turns, ∀ decision ∈ (Session.run (d.evaluate ctx) now turns).2, d.Gives decision := by
  constructor
  · intro h
    refine ⟨d.decide d.body (ctx.withImports d.imports).scope, fun now place => ?_,
      fun k t ht hbefore hfails => d.decide_of_first _ ht hbefore hfails, fun hall => ?_⟩
    · rw [evaluate, d.evaluateFrom_eq_just h d.body h.body]
      exact Flow.isSingle_just _
    · rw [scopeAt, List.take_length]
      exact d.decide_of_all d.body _ hall
  · intro now turns
    exact (d.yields_evaluateFrom d.body _).run now turns

/-- A name is bound twice; the obligations and the transformation see the later binding. -/
def rebound : Document where
  name := "rebound"
  entitlement := .permit
  body := [.valueDefinition "level" (.ofJson (.ofInt 1)),
    .condition (.binary .equals (.identifier "level") (.ofJson (.ofInt 1))),
    .valueDefinition "level" .undefined]
  obligations := [.ofJson (.string "log"), .identifier "level"]
  transformation := some (.identifier "level")

theorem evaluate_decides_rebound :
    rebound.IsFinderFree ∧ ∀ now place, (rebound.evaluate .standard now place).IsSingle
      { outcome := .permit, obligations := some [.string "log"] } := by
  have hfree : rebound.IsFinderFree := by
    refine ⟨by decide, rfl, rfl, fun e he => ?_⟩
    cases he
    rfl
  obtain ⟨decision, hsingle, -, hall⟩ := (evaluate_decides rebound .standard).1 hfree
  have hpasses (i : Nat) (t : Statement) (ht : rebound.body[i]? = some t) :
      t.passes (rebound.scopeAt .standard i) = true := by
    match i with
    | 0 => cases ht; rfl
    | 1 => cases ht; rfl
    | 2 => cases ht; rfl
    | i + 3 => cases ht
  rw [hall hpasses] at hsingle
  exact ⟨hfree, hsingle⟩

end Document
end PolicyDecision
