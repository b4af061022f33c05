import PolicyDecision.Proofs.Evaluation.Direct
import PolicyDecision.Proofs.Stream.Prompt
import PolicyDecision.Retrieval.Basic

/-!
# PolicyDecision.Proofs.Evaluation.SingleValued

Evaluation where nothing is subscribed.

In a target attributes are not followed, and an expression without attribute steps has none to
follow. Its stream is then one item, the value of the expression, whatever is known of live sources
and whatever attribute finders there are.

* `Val.collectArray_eq`, `Val.holding_eq`, …: the aggregates of the latest values.
* `Context.Permits`: nothing is subscribed in the context.
* `Expression.evaluate_eq_just`: the stream of an expression is its value.
* `Expression.evaluate_single`: so targets never wait and do not depend on attribute finders.
-/

namespace PolicyDecision

/-! ## Aggregates -/

namespace Val

theorem members_eq (values : List Val) :
    (members values = .ok (values.filterMap json?) ∧ values.find? isError = none) ∨
    ∃ message, members values = .error message ∧
      values.find? isError = some (.error message) := by
  induction values with
  | nil => exact .inl ⟨rfl, rfl⟩
  | cons v rest ih =>
    cases v with
    | error message => exact .inr ⟨message, rfl, rfl⟩
    | undefined => exact ih
    | defined j =>
      obtain ⟨hm, hf⟩ | ⟨message, hm, hf⟩ := ih
      · exact .inl ⟨by rw [members, hm]; rfl, hf⟩
      · exact .inr ⟨message, by rw [members, hm], hf⟩

theorem collectArray_eq (values : List Val) : collectArray values = arrayOf values := by
  unfold collectArray arrayOf orFirstError
  obtain ⟨hm, hf⟩ | ⟨message, hm, hf⟩ := members_eq values <;> rw [hm, hf]

theorem bindFields_eq (fields : List (String × Val)) (done : List (String × Json)) :
    (bindFields fields done =
        .ok ((fields.filterMap fun f => f.2.json?.map (f.1, ·)).foldl
          (fun table b => Entries.put b.1 b.2 table) done) ∧
      (fields.map (·.2)).find? isError = none) ∨
    ∃ message, bindFields fields done = .error message ∧
      (fields.map (·.2)).find? isError = some (.error message) := by
  induction fields generalizing done with
  | nil => exact .inl ⟨rfl, rfl⟩
  | cons f rest ih =>
    obtain ⟨key, v⟩ := f
    cases v with
    | error message => exact .inr ⟨message, rfl, rfl⟩
    | undefined => exact ih done
    | defined j => exact ih (Entries.put key j done)

theorem collectObject_eq (fields : List (String × Val)) :
    collectObject fields = objectOf fields := by
  unfold collectObject objectOf orFirstError
  obtain ⟨hb, hf⟩ | ⟨message, hb, hf⟩ := bindFields_eq fields []
  · rw [hb, hf]
    rfl
  · rw [hb, hf]

theorem orFirstError_congr {operands : List Val} {a b : Val}
    (h : operands.find? isError = none → a = b) :
    orFirstError operands a = orFirstError operands b := by
  unfold orFirstError
  cases ho : operands.find? isError with
  | none => exact h ho
  | some failure => rfl

theorem holding_go_eq (condition : Json → Val) (candidates : List Json) :
    (holding.go candidates (candidates.map condition) =
        .ok (candidates.filter fun j => (condition j).bool? == some true) ∧
      (candidates.findSome? fun j => (condition j).undecided?) = none) ∨
    ∃ failure, holding.go candidates (candidates.map condition) = .error failure ∧
      (candidates.findSome? fun j => (condition j).undecided?) = some failure := by
  induction candidates with
  | nil => exact .inl ⟨rfl, rfl⟩
  | cons j rest ih =>
    rw [List.map_cons, holding.go, List.filter_cons, List.findSome?_cons]
    cases hc : condition j with
    | error message => exact .inr ⟨_, rfl, rfl⟩
    | undefined => exact .inr ⟨_, rfl, rfl⟩
    | defined c =>
      cases c with
      | bool b =>
        obtain ⟨hg, hf⟩ | ⟨failure, hg, hf⟩ := ih
        · refine .inl ⟨?_, hf⟩
          cases b <;> simp [isError, bool?, json?, Json.bool?, hg, Except.map]
        · refine .inr ⟨failure, ?_, hf⟩
          cases b <;> simp [isError, bool?, json?, Json.bool?, hg, Except.map]
      | _ => exact .inr ⟨_, rfl, rfl⟩

theorem holding_eq (condition : Json → Val) (candidates : List Json) :
    holding candidates (candidates.map condition) = selection condition candidates := by
  unfold holding selection
  obtain ⟨hg, hf⟩ | ⟨failure, hg, hf⟩ := holding_go_eq condition candidates <;>
    simp only [hg, hf]

theorem lazily_eq (op : BinaryOperator) (deciding : Bool) (left right : Val)
    (patterns : PatternDialect) :
    (decided? deciding left).getD (op.apply left right patterns) =
      lazily op deciding left right patterns := by
  cases left with
  | error message => rfl
  | undefined => rfl
  | defined j =>
    cases j with
    | bool b =>
      by_cases hb : b = deciding
      · simp [decided?, lazily, isError, bool?, json?, Json.bool?, hb]
      · have hnone : decided? deciding (.defined (.bool b)) = none := by
          simp [decided?, isError, bool?, json?, Json.bool?, hb]
        rw [hnone, Option.getD_none, lazily, if_neg hb, BinaryOperator.apply, orFirstError]
        cases right <;> rfl
    | _ => rfl

end Val

theorem BinaryOperator.apply_eq (op : BinaryOperator) (left right : Val)
    (patterns : PatternDialect) :
    op.apply left right patterns =
      .orFirstError [left, right] (op.applyDefined left right patterns) := by
  cases left <;> cases right <;> rfl

theorem FunctionLibrary.call_eq (library : FunctionLibrary) (name : String)
    (arguments : List Val) :
    library.call name arguments = .orFirstError arguments (library.result name arguments) := rfl

namespace Stream

theorem recombineArray_just (values : List Val) :
    recombineArray (values.map just) = just (.arrayOf values) := by
  unfold recombineArray
  split
  · rename_i h
    have hnil : values = [] := by simpa using h
    subst hnil
    rfl
  · rw [combineLatest_just, Val.collectArray_eq]

theorem recombineObject_just (fields : List (String × Val)) :
    recombineObject (fields.map fun f => (f.1, just f.2)) = just (.objectOf fields) := by
  unfold recombineObject
  split
  · rename_i h
    have hnil : fields = [] := by simpa using h
    subst hnil
    rfl
  · have hstreams : (fields.map fun f => (f.1, just f.2)).map (·.2) =
        (fields.map (·.2)).map (just : Val → Stream Val) := by simp
    have hzip : (fields.map (·.1)).zip (fields.map (·.2)) = fields := by
      simp [List.zip_map']
    rw [hstreams, combineLatest_just]
    simp [Function.comp_def, Val.collectObject_eq, hzip]

end Stream

/-- The value of `&&` or `||` where the left operand does not decide is that of the operator. -/
theorem evaluateLazy_just (op : BinaryOperator) (deciding : Bool) (a b : Val)
    (patterns : PatternDialect) :
    evaluateLazy op deciding (.just a) (.just b) patterns =
      .just ((decided? deciding a).getD (op.apply a b patterns)) := by
  refine Stream.switchMap_just a _ _ ?_
  cases decided? deciding a with
  | none => exact Stream.map_just _ b
  | some v => rfl

/-- Operators that are not lazy combine the values of their operands. -/
theorem evaluate_binary_just {ctx : Context} {op : BinaryOperator} {left right : Expression}
    {a b : Val} (hand : op ≠ .and) (hor : op ≠ .or) (ha : left.evaluate ctx = .just a)
    (hb : right.evaluate ctx = .just b) :
    (Expression.binary op left right).evaluate ctx = .just (op.apply a b ctx.patterns) := by
  cases op <;> first
    | exact absurd rfl hand
    | exact absurd rfl hor
    | (rw [Expression.evaluate, ha, hb]
       · exact Stream.combineLatest_just _ [a, b]
       all_goals simp)

/-! ## Amendments -/

theorem amendElements_just (items : List Json) (selected : Nat → Bool) (replace : Json → Val) :
    amendElements items selected (fun j => .just (replace j)) =
      .just (Json.replaceElements items selected replace) := by
  have hstreams : (items.mapIdx fun i j => if selected i then .just (replace j) else .keep j) =
      (items.mapIdx fun i j => if selected i then replace j else .defined j).map
        (.just : Val → Stream Val) := by
    refine List.ext_getElem (by simp) fun i h₁ h₂ => ?_
    simp only [List.getElem_mapIdx, List.getElem_map]
    split <;> rfl
  rw [amendElements, hstreams, Stream.recombineArray_just, Json.replaceElements]

theorem amendFields_just (fields : List (String × Json)) (selected : String → Bool)
    (replace : Json → Val) :
    amendFields fields selected (fun j => .just (replace j)) =
      .just (Json.replaceFields fields selected replace) := by
  rw [amendFields, Json.replaceFields, ← Stream.recombineObject_just, List.map_map]
  congr 2
  funext f
  dsimp only [Function.comp_apply]
  split <;> rfl

section

variable (replace : Replacement)

/-- The selector of a replacement. -/
def Replacement.selector (replace : Replacement) : Selector := fun j container =>
  .just (replace j container)

mutual
theorem amendKey_just (key : String) (j : Json) :
    amendKey key replace.selector j = .just (j.replaceKey key replace) := by
  cases j with
  | object fields =>
    rw [amendKey, amendKeyFields_just key _ fields, Stream.recombineObject_just, Json.replaceKey]
  | array items =>
    rw [amendKey, amendKeyItems_just key items, Stream.recombineArray_just, Json.replaceKey]
  | null => rfl
  | bool b => rfl
  | number n => rfl
  | string s => rfl
termination_by structural j

theorem amendKeyFields_just (key : String) (container : Val) (fields : List (String × Json)) :
    amendKeyFields key replace.selector container fields =
      (Json.replaceKeyFields key replace container fields).map fun f => (f.1, .just f.2) := by
  cases fields with
  | nil => rfl
  | cons f rest =>
    obtain ⟨k, j⟩ := f
    rw [amendKeyFields, amendKey_just key j, amendKeyFields_just key container rest,
      Json.replaceKeyFields, List.map_cons]
    by_cases hk : k = key
    · simp only [hk, if_true]
      rfl
    · simp only [hk, if_false]
termination_by structural fields

theorem amendKeyItems_just (key : String) (items : List Json) :
    amendKeyItems key replace.selector items =
      (Json.replaceKeyItems key replace items).map .just := by
  cases items with
  | nil => rfl
  | cons j rest =>
    rw [amendKeyItems, amendKey_just key j, amendKeyItems_just key rest, Json.replaceKeyItems,
      List.map_cons]
termination_by structural items
end

mutual
theorem amendIndex_just (index : Int) (j : Json) :
    amendIndex index replace.selector j = .just (j.replaceIndex index replace) := by
  cases j with
  | object fields =>
    rw [amendIndex, amendIndexFields_just index fields, Stream.recombineObject_just,
      Json.replaceIndex]
  | array items =>
    rw [amendIndex, amendIndexItems_just index _ _ 0 items, Stream.recombineArray_just,
      Json.replaceIndex]
  | null => rfl
  | bool b => rfl
  | number n => rfl
  | string s => rfl
termination_by structural j

theorem amendIndexFields_just (index : Int) (fields : List (String × Json)) :
    amendIndexFields index replace.selector fields =
      (Json.replaceIndexFields index replace fields).map fun f => (f.1, .just f.2) := by
  cases fields with
  | nil => rfl
  | cons f rest =>
    obtain ⟨k, j⟩ := f
    rw [amendIndexFields, amendIndex_just index j, amendIndexFields_just index rest,
      Json.replaceIndexFields, List.map_cons]
termination_by structural fields

theorem amendIndexItems_just (index : Int) (container : Val) (chosen : Option Nat) (i : Nat)
    (items : List Json) :
    amendIndexItems index replace.selector container chosen i items =
      (Json.replaceIndexItems index replace container chosen i items).map .just := by
  cases items with
  | nil => rfl
  | cons j rest =>
    rw [amendIndexItems, amendIndex_just index j,
      amendIndexItems_just index container chosen (i + 1) rest, Json.replaceIndexItems,
      List.map_cons]
    by_cases hi : chosen = some i
    · simp only [hi, if_true]
      rfl
    · simp only [hi, if_false]
termination_by structural items
end

end

theorem amendIf_just (result : Val) (j : Json) (replacement : Val) :
    amendIf result j (fun _ => .just replacement) = .just (.replacedIf result j replacement) := by
  cases result with
  | error message => rfl
  | undefined => rfl
  | defined c =>
    cases c with
    | bool b => cases b <;> rfl
    | _ => rfl

theorem applyFunction_just (value : Val) (function : String) (arguments : List Val) (each : Bool)
    (ctx : Context) :
    applyFunction value function (arguments.map .just) each ctx =
      .just (value.filtered (ctx.scope.result function) arguments each) := by
  -- the value in front is no error, so the library finds none in the arguments either
  have hcall (h : arguments.find? Val.isError = none) (j : Json) :
      ctx.functions.call (ctx.resolve function) (.defined j :: arguments) =
        ctx.scope.result function (.defined j :: arguments) := by
    rw [FunctionLibrary.call_eq, Val.orFirstError, List.find?_cons_of_neg (by simp [Val.isError]),
      h]
    rfl
  cases value with
  | error message => rfl
  | undefined => rfl
  | defined j =>
    cases each with
    | false =>
      refine (Stream.combineLatest_just _ arguments).trans (congrArg Stream.just ?_)
      refine Val.orFirstError_congr fun h => ?_
      dsimp only
      rw [← hcall h]
      cases j.items? <;> rfl
    | true =>
      cases j with
      | array items =>
        refine (Stream.combineLatest_just _ arguments).trans (congrArg Stream.just ?_)
        refine Val.orFirstError_congr fun h => ?_
        dsimp only [Json.items?]
        rw [if_pos rfl, Val.collectArray_eq, funext (hcall h)]
      | _ => rfl

/-! ## Expressions -/

/-- Nothing is subscribed: attributes are not followed in the context, or there are none. -/
def Context.Permits (ctx : Context) (finder : Bool) : Prop := ctx.inTarget = true ∨ finder = false

namespace Context

variable {ctx : Context} {a b : Bool}

theorem permits_or : ctx.Permits (a || b) ↔ ctx.Permits a ∧ ctx.Permits b := by
  cases a <;> cases b <;> simp [Permits]

theorem Permits.withRelative (h : ctx.Permits a) (node : Val) : (ctx.withRelative node).Permits a :=
  h

theorem scope_patterns (ctx : Context) : ctx.scope.patterns = ctx.patterns := rfl

theorem scope_withRelative (ctx : Context) (node : Val) :
    (ctx.withRelative node).scope = ctx.scope.withNode node := rfl

end Context

mutual
theorem Expression.evaluate_eq_just (e : Expression) {ctx : Context}
    (h : ctx.Permits e.containsFinder) : e.evaluate ctx = .just (e.denote ctx.scope) := by
  cases e with
  | basic head steps tail =>
    simp only [Expression.containsFinder, Context.permits_or] at h
    rw [Expression.evaluate, head.evaluate_eq_just h.1.1, applySteps_eq_just steps _ h.2,
      applyTail_eq_just tail _ h.1.2, Expression.denote]
  | unary op operand =>
    rw [Expression.evaluate, operand.evaluate_eq_just h, Stream.map_just, Expression.denote]
  | binary op left right =>
    simp only [Expression.containsFinder, Context.permits_or] at h
    have hl := left.evaluate_eq_just h.1
    have hr := right.evaluate_eq_just h.2
    cases op with
    | and =>
      rw [Expression.evaluate, hl, hr, evaluateLazy_just, Val.lazily_eq, Expression.denote,
        Context.scope_patterns]
    | or =>
      rw [Expression.evaluate, hl, hr, evaluateLazy_just, Val.lazily_eq, Expression.denote,
        Context.scope_patterns]
    | _ =>
      rw [evaluate_binary_just (by simp) (by simp) hl hr, BinaryOperator.apply_eq,
        Expression.denote, Context.scope_patterns]
      all_goals simp
termination_by structural e

theorem Head.evaluate_eq_just (head : Head) {ctx : Context}
    (h : ctx.Permits (Expression.headContains head)) :
    head.evaluate ctx = .just (head.denote ctx.scope) := by
  cases head with
  | group inner => exact inner.evaluate_eq_just h
  | value literal => rfl
  | undefined => rfl
  | array items =>
    rw [Head.evaluate, evaluateAll_eq_just items h, Stream.recombineArray_just, Head.denote]
  | object fields =>
    rw [Head.evaluate, evaluateFields_eq_just fields h, Stream.recombineObject_just, Head.denote]
  | function name arguments =>
    rw [Head.evaluate, evaluateAll_eq_just arguments h, Stream.combineLatest_just,
      FunctionLibrary.call_eq, Head.denote]
    rfl
  | identifier name => rfl
  | relative => rfl
termination_by structural head

theorem evaluateAll_eq_just (es : List Expression) {ctx : Context}
    (h : ctx.Permits (Expression.anyContains es)) :
    evaluateAll es ctx = (denoteAll es ctx.scope).map .just := by
  cases es with
  | nil => rfl
  | cons e es =>
    simp only [Expression.anyContains, Context.permits_or] at h
    rw [evaluateAll, e.evaluate_eq_just h.1, evaluateAll_eq_just es h.2, denoteAll, List.map_cons]
termination_by structural es

theorem evaluateFields_eq_just (fields : List (String × Expression)) {ctx : Context}
    (h : ctx.Permits (Expression.fieldsContain fields)) :
    evaluateFields fields ctx = (denoteFields fields ctx.scope).map fun f => (f.1, .just f.2) := by
  cases fields with
  | nil => rfl
  | cons f rest =>
    obtain ⟨key, e⟩ := f
    simp only [Expression.fieldsContain, Context.permits_or] at h
    rw [evaluateFields, e.evaluate_eq_just h.1, evaluateFields_eq_just rest h.2, denoteFields,
      List.map_cons]
termination_by structural fields

theorem applySteps_eq_just (steps : List Step) (v : Val) {ctx : Context}
    (h : ctx.Permits (Expression.stepsContain steps)) :
    applySteps steps (.just v) ctx = .just (denoteSteps steps v ctx.scope) := by
  cases steps with
  | nil => rfl
  | cons step rest =>
    simp only [Expression.stepsContain, Context.permits_or] at h
    rw [applySteps, Stream.switchMap_just v _ _ (step.apply_eq_just v h.1),
      applySteps_eq_just rest _ h.2, denoteSteps]
termination_by structural steps

theorem applyTail_eq_just (tail : Option Tail) (v : Val) {ctx : Context}
    (h : ctx.Permits (Expression.tailContains tail)) :
    applyTail tail (.just v) ctx = .just (denoteTail tail v ctx.scope) := by
  cases tail with
  | none => rfl
  | some tail =>
    cases tail with
    | filter filter =>
      exact Stream.switchMap_just v _ _ (filter.apply_eq_just v (h.withRelative v))
    | subtemplate template =>
      have ht (node : Val) := template.evaluate_eq_just (h.withRelative node)
      refine Stream.switchMap_just v _ _ ?_
      cases v with
      | error message => rfl
      | undefined => exact ht .undefined
      | defined j =>
        cases j with
        | array items =>
          have hstreams : (items.map fun j => template.evaluate (ctx.withRelative (.defined j))) =
              (items.map fun j => template.denote (ctx.scope.withNode (.defined j))).map .just := by
            simp [ht, Context.scope_withRelative]
          simp only [hstreams, Stream.recombineArray_just, denoteTail]
        | _ => exact ht _
termination_by structural tail

theorem Step.apply_eq_just (step : Step) (parent : Val) {ctx : Context}
    (h : ctx.Permits (Expression.stepContains step)) :
    step.apply parent ctx = .just (step.denote parent ctx.scope) := by
  cases step with
  | key name => cases parent <;> rfl
  | index index => cases parent <;> rfl
  | wildcard => cases parent <;> rfl
  | slice start stop stride =>
    cases parent with
    | error message => rfl
    | undefined => rfl
    | defined j =>
      rw [Step.apply, Step.denote]
      · rcases (Val.defined j).items? with _ | items
        · rfl
        · dsimp only
          rcases sliceIndices _ _ _ _ with fault | indices <;> rfl
      · simp
      · simp
  | recursiveKey name => cases parent <;> rfl
  | recursiveIndex index => cases parent <;> rfl
  | condition condition =>
    have hselect (candidates : List Json) : .combineLatest
        (candidates.map fun j => condition.evaluate (ctx.withRelative (.defined j)))
        (holding candidates) =
        Stream.just (.selection (fun j => condition.denote (ctx.scope.withNode (.defined j)))
          candidates) := by
      have hstreams : (candidates.map fun j => condition.evaluate (ctx.withRelative (.defined j))) =
          (candidates.map fun j => condition.denote (ctx.scope.withNode (.defined j))).map
            .just := by
        simp [fun j => condition.evaluate_eq_just (h.withRelative (.defined j)),
          Context.scope_withRelative]
      rw [hstreams, Stream.combineLatest_just, Val.holding_eq]
    cases parent with
    | error message => rfl
    | undefined => rfl
    | defined j =>
      rw [Step.apply, Step.denote]
      · split
        · rename_i hempty
          rw [List.isEmpty_iff.1 hempty]
          rfl
        · exact hselect _
      · simp
      · simp
  | attributeFinder name arguments head =>
    have htarget : ctx.inTarget = true := h.resolve_right (by simp [Expression.stepContains])
    cases parent <;> simp [Step.apply, Step.denote, followAttribute, htarget] <;> rfl
termination_by structural step

theorem Filter.apply_eq_just (filter : Filter) (v : Val) {ctx : Context}
    (h : ctx.Permits (Expression.filterContains filter)) :
    filter.apply v ctx = .just (filter.denote v ctx.scope) := by
  cases filter with
  | simple function arguments each =>
    cases v with
    | error message => rfl
    | undefined => rfl
    | defined j =>
      rw [Filter.apply, evaluateAll_eq_just arguments h, applyFunction_just, Filter.denote]
      all_goals simp
  | extended statements =>
    cases v with
    | error message => rfl
    | undefined => rfl
    | defined j => exact applyStatements_eq_just statements _ h
termination_by structural filter

theorem applyStatements_eq_just (statements : List FilterStatement) (v : Val) {ctx : Context}
    (h : ctx.Permits (Expression.statementsContain statements)) :
    applyStatements statements (.just v) ctx = .just (denoteStatements statements v ctx.scope) := by
  cases statements with
  | nil => rfl
  | cons statement rest =>
    have hrest : ctx.Permits (Expression.statementsContain rest) := by
      cases statement
      simp only [Expression.statementsContain, Context.permits_or] at h
      exact h.2
    have hfirst : ctx.Permits
        (Expression.stepsContain statement.target ||
          Expression.anyContains statement.arguments) := by
      cases statement
      simp only [Expression.statementsContain, Context.permits_or] at h
      exact Context.permits_or.2 h.1
    have hnext {source : Stream Val} {w : Val} (hw : source = .just w) :
        applyStatements rest source ctx = .just (denoteStatements rest w ctx.scope) :=
      hw ▸ applyStatements_eq_just rest w hrest
    have hstatement (v : Val) := statement.apply_eq_just v hfirst
    cases v with
    | error message => exact hnext (Stream.switchMap_just _ _ _ rfl)
    | undefined => exact hnext (Stream.switchMap_just _ _ _ (hstatement _))
    | defined j => exact hnext (Stream.switchMap_just _ _ _ (hstatement _))
termination_by structural statements

theorem FilterStatement.apply_eq_just (statement : FilterStatement) (v : Val) {ctx : Context}
    (h : ctx.Permits
      (Expression.stepsContain statement.target || Expression.anyContains statement.arguments)) :
    statement.apply v ctx = .just (statement.denote v ctx.scope) := by
  cases statement with
  | mk target function arguments each =>
    rw [Context.permits_or] at h
    have hrun (selected container : Val) :
        applyFunction selected function (evaluateAll arguments (ctx.withRelative container)) each
          ctx = .just (selected.filtered (ctx.scope.result function)
            (denoteAll arguments (ctx.scope.withNode container)) each) := by
      rw [evaluateAll_eq_just arguments (h.2.withRelative container), applyFunction_just,
        Context.scope_withRelative]
    simp only [FilterStatement.apply, FilterStatement.denote, hrun]
    exact amendTarget_eq_just target _ v h.1
termination_by structural statement

theorem amendTarget_eq_just (target : List Step) (replace : Val → Val → Val) (parent : Val)
    {ctx : Context} (h : ctx.Permits (Expression.stepsContain target)) :
    amendTarget target (fun selected container => .just (replace selected container)) parent ctx =
      .just (replaceTarget target replace parent ctx.scope) := by
  cases target with
  | nil => rfl
  | cons step rest =>
    simp only [Expression.stepsContain, Context.permits_or] at h
    have hrest (j : Json) := amendTarget_eq_just rest replace (.defined j) h.2
    have hstep (select : Replacement) (parent : Val) := step.amend_eq_just select parent h.1
    cases rest with
    | nil =>
      cases parent with
      | error message => rfl
      | undefined => exact hstep (fun j container => replace (.defined j) container) _
      | defined j => exact hstep (fun j container => replace (.defined j) container) _
    | cons next rest =>
      have hselector : (fun j _ => amendTarget (next :: rest)
          (fun selected container => .just (replace selected container)) (.defined j) ctx) =
          Replacement.selector fun j _ =>
            replaceTarget (next :: rest) replace (.defined j) ctx.scope :=
        funext fun j => funext fun _ => hrest j
      cases parent with
      | error message => rfl
      | undefined => exact (congrArg (step.amend · _ ctx) hselector).trans (hstep _ _)
      | defined j => exact (congrArg (step.amend · _ ctx) hselector).trans (hstep _ _)
termination_by structural target

theorem Step.amend_eq_just (step : Step) (replace : Replacement) (parent : Val) {ctx : Context}
    (h : ctx.Permits (Expression.stepContains step)) :
    step.amend replace.selector parent ctx = .just (step.replace replace parent ctx.scope) := by
  cases step with
  | key name =>
    rw [Step.amend, Step.replace]
    rcases parent.fields? with _ | fields
    · rfl
    · exact amendFields_just fields _ fun j => replace j parent
  | index index =>
    rw [Step.amend, Step.replace]
    rcases parent.items? with _ | items
    · rfl
    · exact amendElements_just items _ fun j => replace j parent
  | wildcard =>
    cases parent with
    | defined j =>
      cases j with
      | array items => exact amendElements_just items _ fun j => replace j (.defined (.array items))
      | object fields =>
        rw [Step.amend, Step.replace]
        exact amendFields_just fields _ fun j => replace j (.defined (.object fields))
      | _ => rfl
    | _ => rfl
  | slice start stop stride =>
    rw [Step.amend, Step.replace]
    rcases parent.items? with _ | items
    · rfl
    · dsimp only
      rcases sliceIndices _ _ _ _ with fault | indices
      · rfl
      · exact amendElements_just items _ fun j => replace j parent
  | recursiveKey name =>
    cases parent with
    | defined j => exact amendKey_just replace name j
    | _ => rfl
  | recursiveIndex index =>
    cases parent with
    | defined j => exact amendIndex_just replace index.toInt j
    | _ => rfl
  | condition condition =>
    have hcheck (container : Val) : (fun j : Json =>
        (condition.evaluate (ctx.withRelative (.defined j))).switchMap fun result =>
          amendIf result j fun j => replace.selector j container) =
        fun j => .just (.replacedIf (condition.denote (ctx.scope.withNode (.defined j))) j
          (replace j container)) := by
      funext j
      rw [condition.evaluate_eq_just (h.withRelative (.defined j)), Context.scope_withRelative]
      exact Stream.switchMap_just _ _ _ (amendIf_just _ j (replace j container))
    cases parent with
    | defined j =>
      cases j with
      | array items =>
        exact (congrArg (amendElements items _) (hcheck _)).trans (amendElements_just items _ _)
      | object fields =>
        rw [Step.amend, Step.replace]
        exact (congrArg (amendFields fields _) (hcheck _)).trans (amendFields_just fields _ _)
      | _ => rfl
    | _ => rfl
  | attributeFinder name arguments head => rfl
termination_by structural step
end

/-! ## Targets -/

/-- One item without any call, and nothing after it. -/
structure Flow.IsSingle {α : Type} (w : Flow α) (a : α) : Prop where
  items : w.items = [a]
  calls : w.calls = []
  ended : w.rest.isEnded = true

theorem Flow.isSingle_just {α : Type} (a : α) : (Flow.just a).IsSingle a := ⟨rfl, rfl, rfl⟩

/-- The evaluator of targets goes by the value of the predicate. -/
theorem targetEvaluator_eq_of_scope (ctx ctx' : Context) (h : ctx.scope = ctx'.scope)
    (e : Expression) : targetEvaluator ctx e = targetEvaluator ctx' e := by
  have hvalue (c : Context) : e.evaluate c.forTarget = .just (e.denote c.scope) :=
    e.evaluate_eq_just (.inl rfl)
  rw [targetEvaluator, targetEvaluator, hvalue ctx, hvalue ctx', h]

theorem matchesTarget?_some (e : Expression) (ctx : Context) (now : Snapshot) :
    matchesTarget? (some e) ctx now = some ((e.denote ctx.scope).requireBool "Target") := by
  have hvalue : e.evaluate ctx.forTarget = .just (e.denote ctx.scope) :=
    e.evaluate_eq_just (.inl rfl)
  rw [matchesTarget?, hvalue]
  rfl

/-- Where nothing is subscribed an evaluation is one item, the value of the expression, and calls no
attribute finder. So targets never wait, whatever is known of live sources, and their results do not
depend on the attribute finders. -/
theorem Expression.evaluate_single (e : Expression) (ctx : Context) :
    (ctx.inTarget = true ∨ e.containsFinder = false →
      ∀ now place, (e.evaluate ctx now place).IsSingle (e.denote ctx.scope)) ∧
    (∀ now place, (e.evaluate ctx.forTarget now place).IsSingle (e.denote ctx.scope)) ∧
    (∀ now, matchesTarget? (some e) ctx now =
      some ((e.denote ctx.scope).requireBool "Target")) ∧
    ∀ attributes : AttributeRegistry,
      (∀ target now now', matchesTarget? target { ctx with attributes } now =
        matchesTarget? target ctx now') ∧
      targetEvaluator { ctx with attributes } e = targetEvaluator ctx e := by
  have hsingle (c : Context) (hc : c.Permits e.containsFinder) (now : Snapshot) (place : Place) :
      (e.evaluate c now place).IsSingle (e.denote c.scope) := by
    rw [e.evaluate_eq_just hc]
    exact Flow.isSingle_just _
  refine ⟨hsingle ctx, hsingle ctx.forTarget (.inl rfl), matchesTarget?_some e ctx,
    fun attributes => ⟨fun target now now' => ?_,
      targetEvaluator_eq_of_scope { ctx with attributes } ctx rfl e⟩⟩
  cases target with
  | none => rfl
  | some target =>
    rw [matchesTarget?_some, matchesTarget?_some]
    rfl

/-- An attribute of a text: in a target it is an error, and its finder is not called. -/
theorem Expression.evaluate_single_attribute :
    ((Expression.basic (.value (.string "alice")) [.attributeFinder "user.role" [] false]
        none).evaluate Context.standard.forTarget .empty []).IsSingle
      (.fault .attributeInTarget) :=
  (Expression.evaluate_single _ Context.standard.forTarget).1 (.inl rfl) .empty []

end PolicyDecision
