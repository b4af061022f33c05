import PolicyDecision.Attribute.Finders
import PolicyDecision.Evaluation.Evaluate
import PolicyDecision.Proofs.Stream.Emission

/-!
# PolicyDecision.Proofs.Evaluation.Imports

Names that are resolved before an evaluation, or during it.

The names of functions, of filter functions and of attributes are resolved where they are used. An
expression in which all of them are resolved beforehand means the same in a context without imports,
for resolving does not look at its own results again.

* `Expression.evaluate_resolveImports`: both are the same stream.
* `Expression.run_resolveImports`: so both have the same items and the same finder calls in every
  run.
-/

namespace PolicyDecision

section

variable (imports : Imports) (ctx : Context)

theorem Context.resolve_withImports (name : String) :
    (ctx.withImports imports).resolve name =
      (ctx.withImports .empty).resolve (imports.resolve name) := rfl

/-! ## Filter functions and attributes -/

theorem applyFunction_resolve (value : Val) (function : String) (arguments : List (Stream Val))
    (each : Bool) :
    applyFunction value (imports.resolve function) arguments each (ctx.withImports .empty) =
      applyFunction value function arguments each (ctx.withImports imports) := by
  simp only [applyFunction, Context.resolve_withImports imports]
  rfl

theorem followAttribute_resolve (name : String) (arguments : List (Stream Val)) (head : Bool)
    (parent : Val) :
    followAttribute (imports.resolve name) arguments head parent (ctx.withImports .empty) =
      followAttribute name arguments head parent (ctx.withImports imports) := by
  simp only [followAttribute, Context.resolve_withImports imports]
  rfl

/-! ## Expressions -/

mutual
theorem Expression.evaluate_resolveImports (e : Expression) (ctx : Context) :
    (e.resolveImports imports).evaluate (ctx.withImports .empty) =
      e.evaluate (ctx.withImports imports) := by
  cases e with
  | basic head steps tail =>
    rw [Expression.resolveImports, Expression.evaluate, head.evaluate_resolveImports,
      applySteps_resolveSteps, applyTail_resolveTail, Expression.evaluate]
  | unary op operand =>
    rw [Expression.resolveImports, Expression.evaluate, operand.evaluate_resolveImports,
      Expression.evaluate]
  | binary op left right =>
    cases op <;>
      simp only [Expression.resolveImports, Expression.evaluate, left.evaluate_resolveImports,
        right.evaluate_resolveImports, Context.patterns_withImports]
termination_by structural e

theorem Head.evaluate_resolveImports (head : Head) (ctx : Context) :
    (head.resolveImports imports).evaluate (ctx.withImports .empty) =
      head.evaluate (ctx.withImports imports) := by
  cases head with
  | group inner => exact inner.evaluate_resolveImports ctx
  | value literal => rfl
  | undefined => rfl
  | array items =>
    rw [Head.resolveImports, Head.evaluate, evaluateAll_resolveAll, Head.evaluate]
  | object fields =>
    rw [Head.resolveImports, Head.evaluate, evaluateFields_resolveFields, Head.evaluate]
  | function name arguments =>
    rw [Head.resolveImports, Head.evaluate, evaluateAll_resolveAll, Head.evaluate,
      Context.resolve_withImports imports]
    rfl
  | identifier name => rfl
  | relative => rfl
termination_by structural head

theorem evaluateAll_resolveAll (es : List Expression) (ctx : Context) :
    evaluateAll (resolveAll imports es) (ctx.withImports .empty) =
      evaluateAll es (ctx.withImports imports) := by
  cases es with
  | nil => rfl
  | cons e es =>
    rw [resolveAll, evaluateAll, e.evaluate_resolveImports, evaluateAll_resolveAll es, evaluateAll]
termination_by structural es

theorem evaluateFields_resolveFields (fields : List (String × Expression)) (ctx : Context) :
    evaluateFields (resolveFields imports fields) (ctx.withImports .empty) =
      evaluateFields fields (ctx.withImports imports) := by
  cases fields with
  | nil => rfl
  | cons f rest =>
    obtain ⟨key, e⟩ := f
    rw [resolveFields, evaluateFields, e.evaluate_resolveImports, evaluateFields_resolveFields rest,
      evaluateFields]
termination_by structural fields

theorem applySteps_resolveSteps (steps : List Step) (source : Stream Val) (ctx : Context) :
    applySteps (resolveSteps imports steps) source (ctx.withImports .empty) =
      applySteps steps source (ctx.withImports imports) := by
  cases steps with
  | nil => rfl
  | cons step rest =>
    simp only [resolveSteps, applySteps, step.apply_resolveImports]
    exact applySteps_resolveSteps rest _ ctx
termination_by structural steps

theorem applyTail_resolveTail (tail : Option Tail) (source : Stream Val) (ctx : Context) :
    applyTail (resolveTail imports tail) source (ctx.withImports .empty) =
      applyTail tail source (ctx.withImports imports) := by
  cases tail with
  | none => rfl
  | some tail =>
    cases tail with
    | filter filter =>
      have hfilter (value : Val) :=
        filter.apply_resolveImports value (ctx.withRelative value)
      exact congrArg source.switchMap (funext hfilter)
    | subtemplate template =>
      have htemplate (node : Val) := template.evaluate_resolveImports (ctx.withRelative node)
      refine congrArg source.switchMap (funext fun value => ?_)
      split
      · rfl
      · exact congrArg Stream.recombineArray (List.map_congr_left fun j _ => htemplate _)
      · exact htemplate _
termination_by structural tail

theorem Step.apply_resolveImports (step : Step) (parent : Val) (ctx : Context) :
    (step.resolveImports imports).apply parent (ctx.withImports .empty) =
      step.apply parent (ctx.withImports imports) := by
  cases step with
  | condition condition =>
    have hcondition (node : Val) := condition.evaluate_resolveImports (ctx.withRelative node)
    have hchecks (candidates : List Json) : (candidates.map fun j =>
        (condition.resolveImports imports).evaluate
          ((ctx.withImports .empty).withRelative (.defined j))) =
        candidates.map fun j =>
          condition.evaluate ((ctx.withImports imports).withRelative (.defined j)) :=
      List.map_congr_left fun j _ => hcondition _
    cases parent <;> simp only [Step.resolveImports, Step.apply, hchecks]
  | attributeFinder name arguments head =>
    cases parent <;>
      simp only [Step.resolveImports, Step.apply, evaluateAll_resolveAll, followAttribute_resolve]
  | key name => cases parent <;> rfl
  | index index => cases parent <;> rfl
  | wildcard => cases parent <;> rfl
  | slice start stop stride => cases parent <;> rfl
  | recursiveKey name => cases parent <;> rfl
  | recursiveIndex index => cases parent <;> rfl
termination_by structural step

theorem Filter.apply_resolveImports (filter : Filter) (value : Val) (ctx : Context) :
    (filter.resolveImports imports).apply value (ctx.withImports .empty) =
      filter.apply value (ctx.withImports imports) := by
  cases filter with
  | simple function arguments each =>
    cases value <;>
      simp only [Filter.resolveImports, Filter.apply, evaluateAll_resolveAll, applyFunction_resolve]
  | extended statements =>
    cases value <;>
      simp only [Filter.resolveImports, Filter.apply, applyStatements_resolveStatements]
termination_by structural filter

theorem applyStatements_resolveStatements (statements : List FilterStatement) (source : Stream Val)
    (ctx : Context) :
    applyStatements (resolveStatements imports statements) source (ctx.withImports .empty) =
      applyStatements statements source (ctx.withImports imports) := by
  cases statements with
  | nil => rfl
  | cons s rest =>
    have hstatement (value : Val) := s.apply_resolveImports value ctx
    obtain ⟨target, function, arguments, each⟩ := s
    refine (applyStatements_resolveStatements rest _ ctx).trans ?_
    refine congrArg (applyStatements rest · _) (congrArg source.switchMap (funext fun value => ?_))
    split
    · rfl
    · exact hstatement value
termination_by structural statements

theorem FilterStatement.apply_resolveImports (s : FilterStatement) (value : Val) (ctx : Context) :
    (FilterStatement.mk (resolveSteps imports s.target) (imports.resolve s.function)
        (resolveAll imports s.arguments) s.each).apply value (ctx.withImports .empty) =
      s.apply value (ctx.withImports imports) := by
  cases s with
  | mk target function arguments each =>
    have hrun (selected container : Val) :
        applyFunction selected (imports.resolve function)
            (evaluateAll (resolveAll imports arguments)
              ((ctx.withImports .empty).withRelative container)) each (ctx.withImports .empty) =
          applyFunction selected function
            (evaluateAll arguments ((ctx.withImports imports).withRelative container)) each
            (ctx.withImports imports) := by
      rw [applyFunction_resolve]
      exact congrArg (applyFunction selected function · each _)
        (evaluateAll_resolveAll arguments (ctx.withRelative container))
    refine (amendTarget_resolveSteps target _ value ctx).trans ?_
    exact congrArg (amendTarget target · value _) (funext fun selected => funext (hrun selected))
termination_by structural s

theorem amendTarget_resolveSteps (target : List Step) (run : Val → Val → Stream Val) (parent : Val)
    (ctx : Context) :
    amendTarget (resolveSteps imports target) run parent (ctx.withImports .empty) =
      amendTarget target run parent (ctx.withImports imports) := by
  cases target with
  | nil => rfl
  | cons step rest =>
    have hselect : (fun j container => match resolveSteps imports rest with
          | [] => run (.defined j) container
          | _ :: _ => amendTarget (resolveSteps imports rest) run (.defined j)
            (ctx.withImports .empty)) =
        fun j container => match rest with
          | [] => run (.defined j) container
          | _ :: _ => amendTarget rest run (.defined j) (ctx.withImports imports) := by
      have hrest (j : Json) := amendTarget_resolveSteps rest run (.defined j) ctx
      funext j container
      cases rest with
      | nil => rfl
      | cons next rest => exact hrest j
    cases parent with
    | error message => rfl
    | undefined =>
      exact (step.amend_resolveImports _ _ ctx).trans
        (congrArg (step.amend · _ (ctx.withImports imports)) hselect)
    | defined j =>
      exact (step.amend_resolveImports _ _ ctx).trans
        (congrArg (step.amend · _ (ctx.withImports imports)) hselect)
termination_by structural target

theorem Step.amend_resolveImports (step : Step) (select : Selector) (parent : Val)
    (ctx : Context) :
    (step.resolveImports imports).amend select parent (ctx.withImports .empty) =
      step.amend select parent (ctx.withImports imports) := by
  cases step with
  | condition condition =>
    have hcondition (node : Val) : (condition.resolveImports imports).evaluate
          ((ctx.withImports .empty).withRelative node) =
        condition.evaluate ((ctx.withImports imports).withRelative node) :=
      condition.evaluate_resolveImports (ctx.withRelative node)
    simp only [Step.resolveImports, Step.amend, hcondition]
  | key name => rfl
  | index index => rfl
  | wildcard => rfl
  | slice start stop stride => rfl
  | recursiveKey name => rfl
  | recursiveIndex index => rfl
  | attributeFinder name arguments head => rfl
termination_by structural step
end

end

/-! ## Runs -/

/-- Resolving the names beforehand gives the stream that resolves them during the evaluation. So
every run of it has the same items, the same finder calls in the same order and the same
subscriptions. -/
theorem Expression.run_resolveImports (e : Expression) (imports : Imports) (ctx : Context)
    (h : ctx.imports = .empty) :
    (e.resolveImports imports).evaluate ctx = e.evaluate (ctx.withImports imports) ∧
      ∀ now turns,
        (Session.run ((e.resolveImports imports).evaluate ctx) now turns).2 =
            (Session.run (e.evaluate (ctx.withImports imports)) now turns).2 ∧
          (Session.run ((e.resolveImports imports).evaluate ctx) now turns).1 =
            (Session.run (e.evaluate (ctx.withImports imports)) now turns).1 := by
  have hctx : ctx.withImports .empty = ctx := by
    rw [← h]
    rfl
  have hstream := e.evaluate_resolveImports imports ctx
  rw [hctx] at hstream
  refine ⟨hstream, fun now turns => ?_⟩
  rw [hstream]
  exact ⟨rfl, rfl⟩

/-- A short name whose qualified name is itself a short one. -/
def chainedImports : Imports := (SortedTable.empty.insert "a" "b").insert "b" "c"

/-- Functions and live attributes of the names `b` and `c`. -/
def chainedContext : Context where
  attributes := ⟨(SortedTable.empty.insert "b" (AttributeFinder.live "b")).insert "c"
    (AttributeFinder.live "c")⟩
  functions := ⟨(SortedTable.empty.insert "b" fun _ => .ofBool true).insert "c" fun _ =>
    .ofBool false⟩

/-- The attribute `a` of the elements for which the function `a` is true, filtered by it. -/
def chainedExpression : Expression :=
  .basic (.array [.basic (.function "a" []) [] none])
    [.condition (.basic (.function "a" []) [] none), .attributeFinder "a" [] false]
    (some (.filter (.extended
      [.mk [.condition (.basic (.function "a" []) [] none)] "a" [] false])))

theorem Expression.run_resolveImports_chained :
    chainedContext.imports = .empty ∧
      (chainedExpression.resolveImports chainedImports).evaluate chainedContext =
        chainedExpression.evaluate (chainedContext.withImports chainedImports) ∧
      ∀ now turns,
        (Session.run ((chainedExpression.resolveImports chainedImports).evaluate chainedContext) now
            turns).2 =
          (Session.run (chainedExpression.evaluate (chainedContext.withImports chainedImports)) now
            turns).2 ∧
        (Session.run ((chainedExpression.resolveImports chainedImports).evaluate chainedContext) now
            turns).1 =
          (Session.run (chainedExpression.evaluate (chainedContext.withImports chainedImports)) now
            turns).1 :=
  ⟨rfl, Expression.run_resolveImports chainedExpression chainedImports chainedContext rfl⟩

example : (Session.run (chainedExpression.evaluate (chainedContext.withImports chainedImports))
    (fun _ => {}) [.push "c" (.ofBool true), .push "b" (.defined (.array [.ofInt 1]))]).2 =
      [.defined (.array [.bool true])] := by
  cbv

end PolicyDecision
