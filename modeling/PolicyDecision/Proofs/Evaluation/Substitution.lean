import PolicyDecision.Proofs.Evaluation.Bindings

/-!
# PolicyDecision.Proofs.Evaluation.Substitution

Values in the places of variables.

A variable that is bound to a value can be replaced by it, in an expression at any depth: all
contexts in which the parts of an expression are evaluated have the same bindings. In a document
value definitions bind further variables, but none of a subscription.

* `Expression.substitute`, `Document.substitute`: literals instead of some identifiers.
* `Expression.evaluate_substitute`: an expression evaluates to the same stream.
* `Document.evaluate_substitute`: so does a document, for the variables of a subscription.
-/

namespace PolicyDecision

/-! ## Substitution -/

mutual
def Expression.substitute (values : List (String × Json)) : Expression → Expression
  | .basic head steps tail =>
    .basic (head.substitute values) (substituteSteps values steps) (substituteTail values tail)
  | .unary op operand => .unary op (operand.substitute values)
  | .binary op left right => .binary op (left.substitute values) (right.substitute values)

def Head.substitute (values : List (String × Json)) : Head → Head
  | .identifier name =>
    match values.lookup name with
    | some value => .value value
    | none => .identifier name
  | .group inner => .group (inner.substitute values)
  | .array items => .array (substituteAll values items)
  | .object fields => .object (substituteFields values fields)
  | .function name arguments => .function name (substituteAll values arguments)
  | .value literal => .value literal
  | .undefined => .undefined
  | .relative => .relative

def substituteTail (values : List (String × Json)) : Option Tail → Option Tail
  | none => none
  | some (.filter filter) => some (.filter (filter.substitute values))
  | some (.subtemplate template) => some (.subtemplate (template.substitute values))

def substituteAll (values : List (String × Json)) : List Expression → List Expression
  | [] => []
  | e :: es => e.substitute values :: substituteAll values es

def substituteFields (values : List (String × Json)) :
    List (String × Expression) → List (String × Expression)
  | [] => []
  | (key, e) :: rest => (key, e.substitute values) :: substituteFields values rest

def substituteSteps (values : List (String × Json)) : List Step → List Step
  | [] => []
  | step :: rest => step.substitute values :: substituteSteps values rest

def Step.substitute (values : List (String × Json)) : Step → Step
  | .condition condition => .condition (condition.substitute values)
  | .attributeFinder name arguments head =>
    .attributeFinder name (substituteAll values arguments) head
  | .key name => .key name
  | .index index => .index index
  | .wildcard => .wildcard
  | .slice start stop stride => .slice start stop stride
  | .recursiveKey name => .recursiveKey name
  | .recursiveIndex index => .recursiveIndex index

def Filter.substitute (values : List (String × Json)) : Filter → Filter
  | .simple function arguments each => .simple function (substituteAll values arguments) each
  | .extended statements => .extended (substituteStatements values statements)

def substituteStatements (values : List (String × Json)) :
    List FilterStatement → List FilterStatement
  | [] => []
  | s :: rest => s.substitute values :: substituteStatements values rest

def FilterStatement.substitute (values : List (String × Json)) : FilterStatement → FilterStatement
  | .mk target function arguments each =>
    .mk (substituteSteps values target) function (substituteAll values arguments) each
end

def Statement.substitute (values : List (String × Json)) : Statement → Statement
  | .condition e => .condition (e.substitute values)
  | .valueDefinition name e => .valueDefinition name (e.substitute values)

def Document.substitute (values : List (String × Json)) (d : Document) : Document :=
  { d with
    target := d.target.map (·.substitute values)
    body := d.body.map (·.substitute values)
    obligations := substituteAll values d.obligations
    advice := substituteAll values d.advice
    transformation := d.transformation.map (·.substitute values) }

/-! ## Expressions -/

variable {values : List (String × Json)}

/-- The only place where a literal stands for something else. -/
theorem Context.Binds.evaluate_identifier {ctx : Context} (h : ctx.Binds values) (name : String) :
    ((Head.identifier name).substitute values).evaluate ctx = .just (ctx.valueOf name) := by
  rw [Head.substitute]
  cases hvalue : values.lookup name with
  | none => rfl
  | some value =>
    rw [h (name, value) (SortedTable.mem_of_lookup hvalue)]
    rfl

-- The context is generalized in each lemma: filters, subtemplates and conditions bind `@`, but no
-- variable.
mutual
theorem Expression.evaluate_substitute (e : Expression) {ctx : Context} (h : ctx.Binds values) :
    (e.substitute values).evaluate ctx = e.evaluate ctx := by
  cases e with
  | basic head steps tail =>
    rw [Expression.substitute, Expression.evaluate, head.evaluate_substitute h,
      applySteps_substitute steps _ h, applyTail_substitute tail _ h, Expression.evaluate]
  | unary op operand =>
    rw [Expression.substitute, Expression.evaluate, operand.evaluate_substitute h,
      Expression.evaluate]
  | binary op left right =>
    cases op <;>
      simp only [Expression.substitute, Expression.evaluate, left.evaluate_substitute h,
        right.evaluate_substitute h]
termination_by structural e

theorem Head.evaluate_substitute (head : Head) {ctx : Context} (h : ctx.Binds values) :
    (head.substitute values).evaluate ctx = head.evaluate ctx := by
  cases head with
  | group inner => exact inner.evaluate_substitute h
  | value literal => rfl
  | undefined => rfl
  | array items =>
    rw [Head.substitute, Head.evaluate, evaluateAll_substitute items h, Head.evaluate]
  | object fields =>
    rw [Head.substitute, Head.evaluate, evaluateFields_substitute fields h, Head.evaluate]
  | function name arguments =>
    rw [Head.substitute, Head.evaluate, evaluateAll_substitute arguments h, Head.evaluate]
  | identifier name => exact h.evaluate_identifier name
  | relative => rfl
termination_by structural head

theorem evaluateAll_substitute (es : List Expression) {ctx : Context} (h : ctx.Binds values) :
    evaluateAll (substituteAll values es) ctx = evaluateAll es ctx := by
  cases es with
  | nil => rfl
  | cons e es =>
    rw [substituteAll, evaluateAll, e.evaluate_substitute h, evaluateAll_substitute es h,
      evaluateAll]
termination_by structural es

theorem evaluateFields_substitute (fields : List (String × Expression)) {ctx : Context}
    (h : ctx.Binds values) :
    evaluateFields (substituteFields values fields) ctx = evaluateFields fields ctx := by
  cases fields with
  | nil => rfl
  | cons f rest =>
    obtain ⟨key, e⟩ := f
    rw [substituteFields, evaluateFields, e.evaluate_substitute h, evaluateFields_substitute rest h,
      evaluateFields]
termination_by structural fields

theorem applySteps_substitute (steps : List Step) (source : Stream Val) {ctx : Context}
    (h : ctx.Binds values) :
    applySteps (substituteSteps values steps) source ctx = applySteps steps source ctx := by
  cases steps with
  | nil => rfl
  | cons step rest =>
    have hstep : (fun value => (step.substitute values).apply value ctx) =
        fun value => step.apply value ctx :=
      funext fun value => step.apply_substitute value h
    rw [substituteSteps, applySteps, hstep, applySteps_substitute rest _ h, applySteps]
termination_by structural steps

theorem applyTail_substitute (tail : Option Tail) (source : Stream Val) {ctx : Context}
    (h : ctx.Binds values) :
    applyTail (substituteTail values tail) source ctx = applyTail tail source ctx := by
  cases tail with
  | none => rfl
  | some tail =>
    cases tail with
    | filter filter =>
      have hfilter (value : Val) := filter.apply_substitute value (h.withRelative value)
      exact congrArg source.switchMap (funext hfilter)
    | subtemplate template =>
      have htemplate (node : Val) := template.evaluate_substitute (h.withRelative node)
      refine congrArg source.switchMap (funext fun value => ?_)
      split
      · rfl
      · exact congrArg Stream.recombineArray (List.map_congr_left fun j _ => htemplate _)
      · exact htemplate _
termination_by structural tail

theorem Step.apply_substitute (step : Step) (parent : Val) {ctx : Context} (h : ctx.Binds values) :
    (step.substitute values).apply parent ctx = step.apply parent ctx := by
  cases step with
  | condition condition =>
    have hcondition (node : Val) := condition.evaluate_substitute (h.withRelative node)
    cases parent <;> simp only [Step.substitute, Step.apply, hcondition]
  | attributeFinder name arguments head =>
    cases parent <;> simp only [Step.substitute, Step.apply, evaluateAll_substitute arguments h]
  | key name => rfl
  | index index => rfl
  | wildcard => rfl
  | slice start stop stride => rfl
  | recursiveKey name => rfl
  | recursiveIndex index => rfl
termination_by structural step

theorem Filter.apply_substitute (filter : Filter) (value : Val) {ctx : Context}
    (h : ctx.Binds values) :
    (filter.substitute values).apply value ctx = filter.apply value ctx := by
  cases filter with
  | simple function arguments each =>
    cases value <;> simp only [Filter.substitute, Filter.apply, evaluateAll_substitute arguments h]
  | extended statements =>
    cases value <;>
      simp only [Filter.substitute, Filter.apply, applyStatements_substitute statements _ h]
termination_by structural filter

theorem applyStatements_substitute (statements : List FilterStatement) (source : Stream Val)
    {ctx : Context} (h : ctx.Binds values) :
    applyStatements (substituteStatements values statements) source ctx =
      applyStatements statements source ctx := by
  cases statements with
  | nil => rfl
  | cons s rest =>
    have hstatement (value : Val) := s.apply_substitute value h
    simp only [substituteStatements, applyStatements, hstatement]
    exact applyStatements_substitute rest _ h
termination_by structural statements

theorem FilterStatement.apply_substitute (s : FilterStatement) (value : Val) {ctx : Context}
    (h : ctx.Binds values) :
    (s.substitute values).apply value ctx = s.apply value ctx := by
  cases s with
  | mk target function arguments each =>
    have harguments (container : Val) := evaluateAll_substitute arguments (h.withRelative container)
    simp only [FilterStatement.substitute, FilterStatement.apply, harguments]
    exact amendTarget_substitute target _ value h
termination_by structural s

theorem amendTarget_substitute (target : List Step) (run : Val → Val → Stream Val) (parent : Val)
    {ctx : Context} (h : ctx.Binds values) :
    amendTarget (substituteSteps values target) run parent ctx =
      amendTarget target run parent ctx := by
  cases target with
  | nil => rfl
  | cons step rest =>
    have hselect : (fun (j : Json) container => match substituteSteps values rest with
          | [] => run (.defined j) container
          | _ :: _ => amendTarget (substituteSteps values rest) run (.defined j) ctx) =
        fun j container => match rest with
          | [] => run (.defined j) container
          | _ :: _ => amendTarget rest run (.defined j) ctx := by
      have hrest (j : Json) := amendTarget_substitute rest run (.defined j) h
      funext j container
      cases rest with
      | nil => rfl
      | cons next rest => exact hrest j
    cases parent with
    | error message => rfl
    | undefined => exact (step.amend_substitute _ _ h).trans (congrArg (step.amend · _ ctx) hselect)
    | defined j => exact (step.amend_substitute _ _ h).trans (congrArg (step.amend · _ ctx) hselect)
termination_by structural target

theorem Step.amend_substitute (step : Step) (select : Selector) (parent : Val)
    {ctx : Context} (h : ctx.Binds values) :
    (step.substitute values).amend select parent ctx = step.amend select parent ctx := by
  cases step with
  | condition condition =>
    have hcondition (node : Val) := condition.evaluate_substitute (h.withRelative node)
    simp only [Step.substitute, Step.amend, hcondition]
  | key name => rfl
  | index index => rfl
  | wildcard => rfl
  | slice start stop stride => rfl
  | recursiveKey name => rfl
  | recursiveIndex index => rfl
  | attributeFinder name arguments head => rfl
termination_by structural step
end

/-! ## Documents -/

section

variable {s : Subscription}

theorem Statement.expression_substitute (values : List (String × Json)) (statement : Statement) :
    (statement.substitute values).expression = statement.expression.substitute values := by
  cases statement <;> rfl

theorem Statement.outcome_substitute (values : List (String × Json)) (statement : Statement) :
    (statement.substitute values).outcome = statement.outcome := by
  cases statement <;> rfl

/-- The statements behind a statement still have the variables of the subscription. -/
theorem Context.Binds.outcome {ctx next : Context} (h : ctx.Binds s.attributes)
    {statement : Statement} {value : Val} (houtcome : statement.outcome value ctx = .ok next) :
    next.Binds s.attributes := by
  obtain ⟨haccepts, rfl⟩ := Statement.outcome_eq_ok_iff.1 houtcome
  cases statement with
  | condition e => exact h
  | valueDefinition name e =>
    have hname : isReserved name = false := by
      rw [Statement.accepts, Bool.and_eq_true, Bool.not_eq_true'] at haccepts
      simpa using haccepts.2
    exact h.bind (Context.bind_eq_ok_iff.2 ⟨hname, rfl⟩)

theorem Document.constraints_substitute (d : Document) {values : List (String × Json)}
    {ctx : Context} (h : ctx.Binds values) :
    (d.substitute values).constraints ctx = d.constraints ctx := by
  obtain ⟨name, entitlement, imports, target, body, obligations, advice, transformation⟩ := d
  have hobligations := (Expression.array obligations).evaluate_substitute h
  have hadvice := (Expression.array advice).evaluate_substitute h
  rw [constraints, constraints, ← hobligations, ← hadvice]
  cases transformation with
  | none => rfl
  | some e =>
    dsimp only
    rw [← e.evaluate_substitute h]
    rfl

theorem Document.evaluateFrom_substitute (d : Document) (body : List Statement) {ctx : Context}
    (h : ctx.Binds s.attributes) :
    (d.substitute s.attributes).evaluateFrom (body.map (·.substitute s.attributes)) ctx =
      d.evaluateFrom body ctx := by
  induction body generalizing ctx with
  | nil => exact d.constraints_substitute h
  | cons statement rest ih =>
    rw [List.map_cons, evaluateFrom, evaluateFrom, statement.expression_substitute,
      statement.expression.evaluate_substitute h, statement.outcome_substitute]
    refine congrArg _ (funext fun value => ?_)
    cases houtcome : statement.outcome value ctx with
    | ok next => exact ih (h.outcome houtcome)
    | error decision => rfl

/-- A document means the same if every identifier of the subscription's variables is replaced by
its value. -/
theorem Document.evaluate_substitute (d : Document) {ctx : Context} (h : ctx.Binds s.attributes) :
    (d.substitute s.attributes).evaluate ctx = d.evaluate ctx := by
  have himports : (ctx.withImports d.imports).Binds s.attributes := h
  exact d.evaluateFrom_substitute d.body himports

end

end PolicyDecision
