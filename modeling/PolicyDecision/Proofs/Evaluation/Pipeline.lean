import PolicyDecision.Proofs.Evaluation.SingleValued

/-!
# PolicyDecision.Proofs.Evaluation.Pipeline

The statements of an extended filter, as a pipeline.

All statements get the context of the filter, with the filtered value as relative node. None of them
looks at this node: conditions and arguments see a value of their own. So a filter can be cut in two
at any statement.

* `applyStatements_withRelative`: statements do not depend on the relative node of their context.
* `applyStatements_append`: the statements of two lists, one list after the other.
* `Filter.extended_append`: a filter, cut in two.
-/

namespace PolicyDecision

/-! ## The relative node -/

section

variable {ctx : Context} {node : Val}

theorem Step.amend_withRelative (step : Step) (select : Selector) (parent : Val) :
    step.amend select parent (ctx.withRelative node) = step.amend select parent ctx := by
  cases step <;> rfl

theorem amendTarget_withRelative (target : List Step) (run : Val → Val → Stream Val)
    (parent : Val) :
    amendTarget target run parent (ctx.withRelative node) = amendTarget target run parent ctx := by
  induction target generalizing parent with
  | nil => rfl
  | cons step rest ih =>
    simp only [amendTarget, ih, Step.amend_withRelative]

theorem FilterStatement.apply_withRelative (s : FilterStatement) (v : Val) :
    s.apply v (ctx.withRelative node) = s.apply v ctx := by
  cases s with
  | mk target function arguments each =>
    rw [FilterStatement.apply, amendTarget_withRelative]
    rfl

/-- Statements do not depend on the relative node of their context. -/
theorem applyStatements_withRelative (statements : List FilterStatement) (source : Stream Val) :
    applyStatements statements source (ctx.withRelative node) =
      applyStatements statements source ctx := by
  induction statements generalizing source with
  | nil => rfl
  | cons s rest ih =>
    simp only [applyStatements, ih, FilterStatement.apply_withRelative]

end

theorem applyStatements_append (a b : List FilterStatement) (source : Stream Val) (ctx : Context) :
    applyStatements (a ++ b) source ctx = applyStatements b (applyStatements a source ctx) ctx := by
  induction a generalizing source with
  | nil => rfl
  | cons s rest ih => rw [List.cons_append, applyStatements, ih, applyStatements]

/-- An error passes all statements. -/
theorem applyStatements_error (statements : List FilterStatement) (message : String)
    (ctx : Context) :
    applyStatements statements (.just (.error message)) ctx = .just (.error message) := by
  induction statements with
  | nil => rfl
  | cons s rest ih =>
    rw [applyStatements]
    exact (congrArg (applyStatements rest · ctx) (Stream.switchMap_just _ _ _ rfl)).trans ih

/-! ## Filters -/

/-- A value and an extended filter behind it. -/
def Expression.piped (head : Head) (statements : List FilterStatement) : Expression :=
  .basic head [] (some (.filter (.extended statements)))

variable {a b statements : List FilterStatement} {v : Json} {x y : Val} {ctx : Context}

theorem Expression.evaluate_piped (head : Head) (hx : head.evaluate ctx = .just x)
    (hy : (Filter.extended statements).apply x (ctx.withRelative x) = .just y) :
    (piped head statements).evaluate ctx = .just y := by
  rw [piped, Expression.evaluate, hx]
  exact Stream.switchMap_just _ _ _ hy

/-- Where the first statements leave a value, the others work on it as if it were filtered by them
alone. -/
theorem Filter.apply_append
    (h : (Filter.extended a).apply (.defined v) (ctx.withRelative (.defined v)) = .just x)
    (hx : x.isUndefined = false) :
    (Filter.extended (a ++ b)).apply (.defined v) (ctx.withRelative (.defined v)) =
      (Filter.extended b).apply x (ctx.withRelative x) := by
  have hfirst : applyStatements a (.just (.defined v)) (ctx.withRelative (.defined v)) =
      .just x := h
  show applyStatements (a ++ b) (.just (.defined v)) _ = _
  rw [applyStatements_append, hfirst]
  cases x with
  | error message => exact applyStatements_error b message _
  | undefined => cases hx
  | defined w =>
    show _ = applyStatements b (.just (.defined w)) _
    rw [applyStatements_withRelative, applyStatements_withRelative]

theorem Filter.exists_apply_eq_just (h : Expression.statementsContain statements = false) (v : Val)
    (ctx : Context) : ∃ x, (Filter.extended statements).apply v ctx = .just x :=
  ⟨_, (Filter.extended statements).apply_eq_just v (.inr h)⟩

/-- An extended filter without attribute finders can be cut in two: unless the first statements
leave no value, the others do to their result what they do as a filter of its own. An error of the
first ones is the result. So a statement depends only on the output of those before it: the value
that was filtered first, the relative node of the context of all statements, is not seen by any of
them. -/
theorem Filter.extended_append (a b : List FilterStatement) (v : Json) (ctx : Context)
    (ha : Expression.statementsContain a = false) (hb : Expression.statementsContain b = false) :
    (∃ x, (Filter.extended a).apply (.defined v) (ctx.withRelative (.defined v)) = .just x ∧
      (Expression.piped (.value v) a).evaluate ctx = .just x ∧
      (x.isUndefined = false →
        (Filter.extended (a ++ b)).apply (.defined v) (ctx.withRelative (.defined v)) =
            (Filter.extended b).apply x (ctx.withRelative x) ∧
        (Expression.piped (.value v) (a ++ b)).evaluate ctx =
          (Expression.piped (.group (.piped (.value v) a)) b).evaluate ctx) ∧
      ∀ message, x = .error message →
        (Expression.piped (.value v) (a ++ b)).evaluate ctx = .just (.error message)) ∧
    ∀ (statements : List FilterStatement) (source : Stream Val) (node node' : Val),
      applyStatements statements source (ctx.withRelative node) =
        applyStatements statements source (ctx.withRelative node') := by
  constructor
  · obtain ⟨x, hx⟩ := exists_apply_eq_just ha (.defined v) (ctx.withRelative (.defined v))
    obtain ⟨y, hy⟩ := exists_apply_eq_just hb x (ctx.withRelative x)
    have hchained := Expression.evaluate_piped (.value v) rfl hx
    refine ⟨x, hx, hchained, fun hdefined => ⟨apply_append hx hdefined, ?_⟩, ?_⟩
    · rw [Expression.evaluate_piped (.value v) rfl ((apply_append hx hdefined).trans hy),
        Expression.evaluate_piped (.group (.piped (.value v) a)) hchained hy]
    · rintro message rfl
      exact Expression.evaluate_piped (.value v) rfl (apply_append hx rfl)
  · intro statements source node node'
    rw [applyStatements_withRelative, applyStatements_withRelative]

/-- The name is replaced by the alias beside it, and the note by the name that is there then. -/
theorem Filter.extended_append_alias :
    let person (name note : String) : Json :=
      .object [("name", .string name), ("alias", .string "x"), ("note", .string note)]
    let rename : FilterStatement :=
      .mk [.key "name"] "filter.replace" [.basic .relative [.key "alias"] none] false
    let annotate : FilterStatement :=
      .mk [.key "note"] "filter.replace" [.basic .relative [.key "name"] none] false
    (Expression.statementsContain [rename] = false ∧
      Expression.statementsContain [annotate] = false) ∧
    (Expression.piped (.value (person "bob" "ill")) [rename, annotate]).evaluate .standard =
      (Expression.piped (.group (.piped (.value (person "bob" "ill")) [rename]))
        [annotate]).evaluate .standard ∧
    (Filter.extended [annotate]).apply (.defined (person "x" "ill"))
      (Context.standard.withRelative (.defined (person "x" "ill"))) =
        .just (.defined (person "x" "x")) := by
  intro person rename annotate
  obtain ⟨⟨x, hx, -, hcut, -⟩, -⟩ :=
    Filter.extended_append [rename] [annotate] (person "bob" "ill") .standard rfl rfl
  have hrenamed : (Filter.extended [rename]).apply (.defined (person "bob" "ill"))
      (Context.standard.withRelative (.defined (person "bob" "ill"))) =
        .just (.defined (person "x" "ill")) :=
    (Filter.extended [rename]).apply_eq_just _ (.inr rfl)
  have hitems : [Val.defined (person "x" "ill")] = [x] :=
    congrArg Flow.items (congrFun (congrFun (hrenamed.symm.trans hx) .empty) [])
  obtain rfl := (List.cons.inj hitems).1
  exact ⟨⟨rfl, rfl⟩, (hcut rfl).2, (Filter.extended [annotate]).apply_eq_just _ (.inr rfl)⟩

end PolicyDecision
