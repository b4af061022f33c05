import PolicyDecision.Evaluation.Document

/-!
# PolicyDecision.Proofs.Evaluation.StreamClass

Classes of streams that evaluation stays in.

A class that has the constant streams and is closed under the combinators has the streams of all
expressions, as long as following an attribute stays in it too. Which attribute steps are allowed is a
condition on their `head` flags.

* `StreamClass`: a class closed under `just`, `map`, `combineLatest` and `switchMap`.
* `Expression.headFlags`: the flags of the attribute steps of an expression.
* `StreamClass.Admits.evaluate`: the streams of expressions are in the class.
* `StreamClass.Admits.evaluateDocument`: so are those of documents.
-/

namespace PolicyDecision

structure StreamClass where
  mem : {α : Type} → Stream α → Prop
  just : ∀ {α : Type} (a : α), mem (.just a)
  map : ∀ {α β : Type} (f : α → β) {s : Stream α}, mem s → mem (s.map f)
  combineLatest : ∀ {α β : Type} (f : List α → β) {sources : List (Stream α)},
    (∀ s ∈ sources, mem s) → mem (.combineLatest sources f)
  switchMap : ∀ {α β : Type} {s : Stream α} {stream : α → Stream β},
    mem s → (∀ a, mem (stream a)) → mem (s.switchMap stream)

/-! ## Attribute steps -/

mutual
/-- The `head` flags of the attribute steps anywhere in the tree. -/
def Expression.headFlags : Expression → List Bool
  | .basic head steps tail => head.headFlags ++ stepsFlags steps ++ tailFlags tail
  | .unary _ operand => operand.headFlags
  | .binary _ left right => left.headFlags ++ right.headFlags

def Head.headFlags : Head → List Bool
  | .group inner => inner.headFlags
  | .array items => expressionsFlags items
  | .object fields => pairsFlags fields
  | .function _ arguments => expressionsFlags arguments
  | .value _ | .undefined | .identifier _ | .relative => []

def tailFlags : Option Tail → List Bool
  | none => []
  | some (.filter filter) => filter.headFlags
  | some (.subtemplate template) => template.headFlags

def expressionsFlags : List Expression → List Bool
  | [] => []
  | e :: es => e.headFlags ++ expressionsFlags es

def pairsFlags : List (String × Expression) → List Bool
  | [] => []
  | (_, e) :: rest => e.headFlags ++ pairsFlags rest

def stepsFlags : List Step → List Bool
  | [] => []
  | step :: rest => step.headFlags ++ stepsFlags rest

def Step.headFlags : Step → List Bool
  | .attributeFinder _ arguments head => head :: expressionsFlags arguments
  | .condition condition => condition.headFlags
  | .key _ | .index _ | .wildcard | .slice _ _ _ | .recursiveKey _ | .recursiveIndex _ => []

def Filter.headFlags : Filter → List Bool
  | .simple _ arguments _ => expressionsFlags arguments
  | .extended statements => filterStatementsFlags statements

def filterStatementsFlags : List FilterStatement → List Bool
  | [] => []
  | s :: rest => s.headFlags ++ filterStatementsFlags rest

def FilterStatement.headFlags : FilterStatement → List Bool
  | .mk target _ arguments _ => stepsFlags target ++ expressionsFlags arguments
end

/-- The `head` flags of the attribute steps that evaluating a document can reach. -/
def Document.headFlags (d : Document) : List Bool :=
  d.body.flatMap (·.expression.headFlags) ++
    (expressionsFlags d.obligations ++ (expressionsFlags d.advice ++
      (d.transformation.map Expression.headFlags).getD []))

namespace StreamClass

variable {C : StreamClass}

theorem fault (C : StreamClass) (f : Fault) : C.mem (.fault f) := C.just _

theorem recombineArray {elements : List (Stream Val)} (h : ∀ s ∈ elements, C.mem s) :
    C.mem (.recombineArray elements) := by
  unfold Stream.recombineArray
  split
  · exact C.just _
  · exact C.combineLatest _ h

theorem recombineObject {fields : List (String × Stream Val)} (h : ∀ f ∈ fields, C.mem f.2) :
    C.mem (.recombineObject fields) := by
  unfold Stream.recombineObject
  split
  · exact C.just _
  · refine C.combineLatest _ fun s hs => ?_
    obtain ⟨f, hf, rfl⟩ := List.mem_map.1 hs
    exact h f hf

theorem amendElements {items : List Json} {selected : Nat → Bool} {select : Json → Stream Val}
    (h : ∀ j, C.mem (select j)) : C.mem (amendElements items selected select) := by
  refine recombineArray fun s hs => ?_
  obtain ⟨i, hi, rfl⟩ := List.mem_mapIdx.1 hs
  split
  · exact h _
  · exact C.just _

theorem amendFields {fields : List (String × Json)} {selected : String → Bool}
    {select : Json → Stream Val} (h : ∀ j, C.mem (select j)) :
    C.mem (amendFields fields selected select) := by
  refine recombineObject fun f hf => ?_
  obtain ⟨b, hb, rfl⟩ := List.mem_map.1 hf
  dsimp only
  split
  · exact h _
  · exact C.just _

section

variable {select : Selector}

mutual
theorem amendKey (h : ∀ j container, C.mem (select j container)) (key : String)
    (j : Json) : C.mem (amendKey key select j) := by
  cases j with
  | object fields =>
    rw [PolicyDecision.amendKey]
    exact recombineObject (amendKeyFields h key _ fields)
  | array items =>
    rw [PolicyDecision.amendKey]
    exact recombineArray (amendKeyItems h key items)
  | null => exact C.just _
  | bool b => exact C.just _
  | number n => exact C.just _
  | string s => exact C.just _
termination_by structural j

theorem amendKeyFields (h : ∀ j container, C.mem (select j container)) (key : String)
    (container : Val) (fields : List (String × Json)) :
    ∀ f ∈ amendKeyFields key select container fields, C.mem f.2 := by
  cases fields with
  | nil => simp [PolicyDecision.amendKeyFields]
  | cons f rest =>
    obtain ⟨k, j⟩ := f
    rw [PolicyDecision.amendKeyFields, List.forall_mem_cons]
    refine ⟨?_, amendKeyFields h key container rest⟩
    dsimp only
    split
    · exact h j container
    · exact amendKey h key j
termination_by structural fields

theorem amendKeyItems (h : ∀ j container, C.mem (select j container)) (key : String)
    (items : List Json) :
    ∀ s ∈ amendKeyItems key select items, C.mem s := by
  cases items with
  | nil => simp [PolicyDecision.amendKeyItems]
  | cons j rest =>
    rw [PolicyDecision.amendKeyItems, List.forall_mem_cons]
    exact ⟨amendKey h key j, amendKeyItems h key rest⟩
termination_by structural items
end

mutual
theorem amendIndex (h : ∀ j container, C.mem (select j container)) (index : Int)
    (j : Json) : C.mem (amendIndex index select j) := by
  cases j with
  | object fields =>
    rw [PolicyDecision.amendIndex]
    exact recombineObject (amendIndexFields h index fields)
  | array items =>
    rw [PolicyDecision.amendIndex]
    exact recombineArray (amendIndexItems h index _ _ 0 items)
  | null => exact C.just _
  | bool b => exact C.just _
  | number n => exact C.just _
  | string s => exact C.just _
termination_by structural j

theorem amendIndexFields (h : ∀ j container, C.mem (select j container)) (index : Int)
    (fields : List (String × Json)) :
    ∀ f ∈ amendIndexFields index select fields, C.mem f.2 := by
  cases fields with
  | nil => simp [PolicyDecision.amendIndexFields]
  | cons f rest =>
    obtain ⟨k, j⟩ := f
    rw [PolicyDecision.amendIndexFields, List.forall_mem_cons]
    exact ⟨amendIndex h index j, amendIndexFields h index rest⟩
termination_by structural fields

theorem amendIndexItems (h : ∀ j container, C.mem (select j container)) (index : Int)
    (container : Val) (chosen : Option Nat) (i : Nat) (items : List Json) :
    ∀ s ∈ amendIndexItems index select container chosen i items, C.mem s := by
  cases items with
  | nil => simp [PolicyDecision.amendIndexItems]
  | cons j rest =>
    rw [PolicyDecision.amendIndexItems, List.forall_mem_cons]
    refine ⟨?_, amendIndexItems h index container chosen (i + 1) rest⟩
    split
    · exact h j container
    · exact amendIndex h index j
termination_by structural items
end

end

theorem applyFunction {arguments : List (Stream Val)} (h : ∀ s ∈ arguments, C.mem s) (value : Val)
    (function : String) (each : Bool) (ctx : Context) :
    C.mem (applyFunction value function arguments each ctx) := by
  unfold PolicyDecision.applyFunction
  cases value with
  | error message => exact C.just _
  | undefined => exact C.just _
  | defined j =>
    dsimp only
    split
    · exact C.just _
    · exact C.combineLatest _ h

theorem evaluateLazy {left right : Stream Val} (op : BinaryOperator) (deciding : Bool)
    (patterns : PatternDialect) (hl : C.mem left) (hr : C.mem right) :
    C.mem (evaluateLazy op deciding left right patterns) := by
  refine C.switchMap hl fun a => ?_
  split
  · exact C.just _
  · exact C.map _ hr

/-- Following an attribute stays in the class, in contexts and with flags that are admitted. -/
structure Admits (C : StreamClass) (context : Context → Prop) (flag : Bool → Prop) : Prop where
  withRelative : ∀ ctx node, context ctx → context (ctx.withRelative node)
  withImports : ∀ ctx imports, context ctx → context (ctx.withImports imports)
  bind : ∀ ctx name value next, context ctx → ctx.bind name value = .ok next → context next
  follow : ∀ ctx, context ctx → ∀ head, flag head → ∀ name arguments parent,
    (∀ s ∈ arguments, C.mem s) → C.mem (followAttribute name arguments head parent ctx)

/-! ## Expressions -/

variable {context : Context → Prop} {flag : Bool → Prop}

mutual
theorem Admits.evaluate (A : C.Admits context flag) (e : Expression) (he : ∀ b ∈ e.headFlags, flag b)
    (ctx : Context) (hctx : context ctx) : C.mem (e.evaluate ctx) := by
  cases e with
  | basic head steps tail =>
    simp only [Expression.headFlags, List.forall_mem_append] at he
    rw [Expression.evaluate]
    exact A.applyTail tail he.2 ctx hctx
      (A.applySteps steps he.1.2 ctx hctx (A.evaluateHead head he.1.1 ctx hctx))
  | unary op operand =>
    rw [Expression.headFlags] at he
    rw [Expression.evaluate]
    exact C.map _ (A.evaluate operand he ctx hctx)
  | binary op left right =>
    simp only [Expression.headFlags, List.forall_mem_append] at he
    have hl := A.evaluate left he.1 ctx hctx
    have hr := A.evaluate right he.2 ctx hctx
    have hboth : ∀ s ∈ [left.evaluate ctx, right.evaluate ctx], C.mem s := by
      simp [hl, hr]
    cases op with
    | and => exact evaluateLazy _ _ _ hl hr
    | or => exact evaluateLazy _ _ _ hl hr
    | _ => exact C.combineLatest _ hboth
termination_by structural e

theorem Admits.evaluateHead (A : C.Admits context flag) (head : Head)
    (he : ∀ b ∈ head.headFlags, flag b) (ctx : Context) (hctx : context ctx) :
    C.mem (head.evaluate ctx) := by
  cases head with
  | group inner => exact A.evaluate inner he ctx hctx
  | value literal => exact C.just _
  | undefined => exact C.just _
  | array items => exact recombineArray (A.evaluateAll items he ctx hctx)
  | object fields => exact recombineObject (A.evaluateFields fields he ctx hctx)
  | function name arguments => exact C.combineLatest _ (A.evaluateAll arguments he ctx hctx)
  | identifier name => exact C.just _
  | relative => exact C.just _
termination_by structural head

theorem Admits.evaluateAll (A : C.Admits context flag) (es : List Expression)
    (he : ∀ b ∈ expressionsFlags es, flag b) (ctx : Context) (hctx : context ctx) :
    ∀ s ∈ evaluateAll es ctx, C.mem s := by
  cases es with
  | nil => simp [PolicyDecision.evaluateAll]
  | cons e es =>
    simp only [expressionsFlags, List.forall_mem_append] at he
    rw [PolicyDecision.evaluateAll, List.forall_mem_cons]
    exact ⟨A.evaluate e he.1 ctx hctx, A.evaluateAll es he.2 ctx hctx⟩
termination_by structural es

theorem Admits.evaluateFields (A : C.Admits context flag) (fields : List (String × Expression))
    (he : ∀ b ∈ pairsFlags fields, flag b) (ctx : Context) (hctx : context ctx) :
    ∀ f ∈ evaluateFields fields ctx, C.mem f.2 := by
  cases fields with
  | nil => simp [PolicyDecision.evaluateFields]
  | cons f rest =>
    obtain ⟨key, e⟩ := f
    simp only [pairsFlags, List.forall_mem_append] at he
    rw [PolicyDecision.evaluateFields, List.forall_mem_cons]
    exact ⟨A.evaluate e he.1 ctx hctx, A.evaluateFields rest he.2 ctx hctx⟩
termination_by structural fields

theorem Admits.applySteps (A : C.Admits context flag) (steps : List Step)
    (he : ∀ b ∈ stepsFlags steps, flag b) (ctx : Context) (hctx : context ctx) {source : Stream Val}
    (hs : C.mem source) : C.mem (applySteps steps source ctx) := by
  cases steps with
  | nil => exact hs
  | cons step rest =>
    simp only [stepsFlags, List.forall_mem_append] at he
    rw [PolicyDecision.applySteps]
    exact A.applySteps rest he.2 ctx hctx
      (C.switchMap hs fun value => A.applyStep step he.1 value ctx hctx)
termination_by structural steps

theorem Admits.applyTail (A : C.Admits context flag) (tail : Option Tail)
    (he : ∀ b ∈ tailFlags tail, flag b) (ctx : Context) (hctx : context ctx) {source : Stream Val}
    (hs : C.mem source) : C.mem (applyTail tail source ctx) := by
  cases tail with
  | none => exact hs
  | some tail =>
    cases tail with
    | filter filter =>
      exact C.switchMap hs fun value =>
        A.applyFilter filter he value _ (A.withRelative ctx value hctx)
    | subtemplate template =>
      refine C.switchMap hs fun value => ?_
      have ht (node : Val) : C.mem (template.evaluate (ctx.withRelative node)) :=
        A.evaluate template he _ (A.withRelative ctx node hctx)
      split
      · exact C.just _
      · refine recombineArray fun s hs => ?_
        obtain ⟨j, _, rfl⟩ := List.mem_map.1 hs
        exact ht _
      · exact ht value
termination_by structural tail

theorem Admits.applyStep (A : C.Admits context flag) (step : Step)
    (he : ∀ b ∈ step.headFlags, flag b) (parent : Val) (ctx : Context) (hctx : context ctx) :
    C.mem (step.apply parent ctx) := by
  cases step with
  | key name => cases parent <;> exact C.just _
  | index index => cases parent <;> exact C.just _
  | wildcard => cases parent <;> exact C.just _
  | slice start stop stride =>
    cases parent with
    | error message => exact C.just _
    | undefined => exact C.just _
    | defined j =>
      rw [Step.apply]
      · split
        · exact C.just _
        · split <;> exact C.just _
      · simp
  | recursiveKey name => cases parent <;> exact C.just _
  | recursiveIndex index => cases parent <;> exact C.just _
  | condition condition =>
    have hall : C.mem (.combineLatest
        ((childrenOf parent).map fun j => condition.evaluate (ctx.withRelative (.defined j)))
        (holding (childrenOf parent))) := by
      refine C.combineLatest _ fun s hs => ?_
      obtain ⟨j, _, rfl⟩ := List.mem_map.1 hs
      exact A.evaluate condition he _ (A.withRelative ctx _ hctx)
    cases parent with
    | error message => exact C.just _
    | undefined => exact C.just _
    | defined j =>
      rw [Step.apply]
      · split
        · exact C.just _
        · exact hall
      · simp
  | attributeFinder name arguments head =>
    simp only [Step.headFlags, List.forall_mem_cons] at he
    have hfollow (parent : Val) :=
      A.follow ctx hctx head he.1 name _ parent (A.evaluateAll arguments he.2 ctx hctx)
    cases parent with
    | error message => exact C.just _
    | undefined => exact hfollow _
    | defined j => exact hfollow _
termination_by structural step

theorem Admits.applyFilter (A : C.Admits context flag) (filter : Filter)
    (he : ∀ b ∈ filter.headFlags, flag b) (value : Val) (ctx : Context) (hctx : context ctx) :
    C.mem (filter.apply value ctx) := by
  cases filter with
  | simple function arguments each =>
    have hfilter (value : Val) :=
      applyFunction (A.evaluateAll arguments he ctx hctx) value function each ctx
    cases value with
    | error message => exact C.just _
    | undefined => exact C.just _
    | defined j =>
      rw [Filter.apply]
      · exact hfilter _
      · simp
      · simp
  | extended statements =>
    cases value with
    | error message => exact C.just _
    | undefined => exact C.just _
    | defined j => exact A.applyStatements statements he ctx hctx (C.just _)
termination_by structural filter

theorem Admits.applyStatements (A : C.Admits context flag) (statements : List FilterStatement)
    (he : ∀ b ∈ filterStatementsFlags statements, flag b) (ctx : Context) (hctx : context ctx)
    {source : Stream Val} (hs : C.mem source) : C.mem (applyStatements statements source ctx) := by
  cases statements with
  | nil => exact hs
  | cons s rest =>
    simp only [filterStatementsFlags, List.forall_mem_append] at he
    rw [PolicyDecision.applyStatements]
    refine A.applyStatements rest he.2 ctx hctx (C.switchMap hs fun value => ?_)
    split
    · exact C.just _
    · exact A.applyStatement s he.1 value ctx hctx
termination_by structural statements

theorem Admits.applyStatement (A : C.Admits context flag) (s : FilterStatement)
    (he : ∀ b ∈ s.headFlags, flag b) (value : Val) (ctx : Context) (hctx : context ctx) :
    C.mem (s.apply value ctx) := by
  cases s with
  | mk target function arguments each =>
    simp only [FilterStatement.headFlags, List.forall_mem_append] at he
    rw [FilterStatement.apply]
    exact A.amendTarget target he.1 value ctx hctx fun selected container =>
      applyFunction (A.evaluateAll arguments he.2 _ (A.withRelative ctx container hctx)) selected
        function each ctx
termination_by structural s

theorem Admits.amendTarget (A : C.Admits context flag) (target : List Step)
    (he : ∀ b ∈ stepsFlags target, flag b) (parent : Val) (ctx : Context) (hctx : context ctx)
    {run : Val → Val → Stream Val} (hrun : ∀ selected container, C.mem (run selected container)) :
    C.mem (amendTarget target run parent ctx) := by
  cases target with
  | nil => exact hrun _ _
  | cons step rest =>
    simp only [stepsFlags, List.forall_mem_append] at he
    have hrest (j : Json) := A.amendTarget rest he.2 (.defined j) ctx hctx hrun
    have hselect (j : Json) (container : Val) :
        C.mem (match rest with
          | [] => run (.defined j) container
          | _ :: _ => PolicyDecision.amendTarget rest run (.defined j) ctx) := by
      split
      · exact hrun _ _
      · exact hrest j
    cases parent with
    | error message => exact C.just _
    | undefined => exact A.amendStep step he.1 _ ctx hctx hselect
    | defined j => exact A.amendStep step he.1 _ ctx hctx hselect
termination_by structural target

theorem Admits.amendStep (A : C.Admits context flag) (step : Step)
    (he : ∀ b ∈ step.headFlags, flag b) (parent : Val) (ctx : Context) (hctx : context ctx)
    {select : Selector} (hselect : ∀ j container, C.mem (select j container)) :
    C.mem (step.amend select parent ctx) := by
  have hcheck (condition : Expression)
      (hc : ∀ node, C.mem (condition.evaluate (ctx.withRelative node))) (container : Val) (j : Json) :
      C.mem ((condition.evaluate (ctx.withRelative (.defined j))).switchMap fun result =>
        amendIf result j fun j => select j container) := by
    refine C.switchMap (hc _) fun result => ?_
    unfold amendIf
    split
    · exact C.just _
    · split
      · exact hselect j container
      · exact C.just _
      · exact C.just _
  cases step with
  | key name =>
    rw [Step.amend]
    split
    · exact amendFields fun j => hselect j parent
    · exact C.just _
  | index index =>
    rw [Step.amend]
    split
    · exact amendElements fun j => hselect j parent
    · exact C.just _
  | wildcard =>
    cases parent with
    | defined j =>
      cases j with
      | array items => exact amendElements fun j => hselect j (.defined (.array items))
      | object fields =>
        rw [Step.amend]
        exact amendFields fun j => hselect j (.defined (.object fields))
      | _ => exact C.just _
    | _ => exact C.just _
  | slice start stop stride =>
    rw [Step.amend]
    split
    · exact C.just _
    · split
      · exact amendElements fun j => hselect j parent
      · exact C.just _
  | recursiveKey name =>
    cases parent with
    | defined j => exact amendKey hselect name j
    | _ => exact C.just _
  | recursiveIndex index =>
    cases parent with
    | defined j => exact amendIndex hselect index.toInt j
    | _ => exact C.just _
  | condition condition =>
    have hc := hcheck condition fun node =>
      A.evaluate condition he _ (A.withRelative ctx node hctx)
    cases parent with
    | defined j =>
      cases j with
      | array items => exact amendElements (hc (.defined (.array items)))
      | object fields =>
        rw [Step.amend]
        exact amendFields (hc (.defined (.object fields)))
      | _ => exact C.just _
    | _ => exact C.just _
  | attributeFinder name arguments head => exact C.just _
termination_by structural step
end

/-! ## Documents -/

theorem Admits.constraints (A : C.Admits context flag) (d : Document)
    (hd : ∀ b ∈ d.headFlags, flag b) (ctx : Context) (hctx : context ctx) :
    C.mem (d.constraints ctx) := by
  simp only [Document.headFlags, List.forall_mem_append] at hd
  refine C.combineLatest _ fun s hs => ?_
  simp only [List.mem_cons, List.not_mem_nil, or_false] at hs
  have harray (es : List Expression) (hes : ∀ b ∈ expressionsFlags es, flag b) :
      C.mem ((Expression.array es).evaluate ctx) :=
    A.evaluate _ (by simpa [Expression.array, Expression.ofHead, Expression.headFlags,
      Head.headFlags, stepsFlags, tailFlags] using hes) ctx hctx
  rcases hs with rfl | rfl | rfl
  · exact harray _ hd.2.1
  · exact harray _ hd.2.2.1
  · cases ht : d.transformation with
    | none => exact C.just _
    | some e => exact A.evaluate e (by simpa [ht] using hd.2.2.2) ctx hctx

theorem Admits.evaluateFrom (A : C.Admits context flag) (d : Document)
    (hd : ∀ b ∈ d.headFlags, flag b) {statements : List Statement}
    (hs : ∀ s ∈ statements, ∀ b ∈ s.expression.headFlags, flag b) (ctx : Context)
    (hctx : context ctx) : C.mem (d.evaluateFrom statements ctx) := by
  induction statements generalizing ctx with
  | nil => exact A.constraints d hd ctx hctx
  | cons s rest ih =>
    rw [List.forall_mem_cons] at hs
    refine C.switchMap (A.evaluate s.expression hs.1 ctx hctx) fun value => ?_
    split
    · rename_i next hnext
      refine ih hs.2 next ?_
      cases s with
      | condition e =>
        simp only [Statement.outcome] at hnext
        split at hnext
        · cases hnext
          exact hctx
        · cases hnext
        · cases hnext
      | valueDefinition name e =>
        simp only [Statement.outcome] at hnext
        split at hnext
        · cases hnext
        · split at hnext
          · cases hnext
            exact A.bind ctx name value _ hctx (by assumption)
          · cases hnext
    · exact C.just _

theorem Admits.evaluateDocument (A : C.Admits context flag) (d : Document)
    (hd : ∀ b ∈ d.headFlags, flag b) (ctx : Context) (hctx : context ctx) :
    C.mem (d.evaluate ctx) := by
  refine A.evaluateFrom d hd (fun s hs b hb => hd b ?_) _ (A.withImports ctx _ hctx)
  exact List.mem_append_left _ (List.mem_flatMap.2 ⟨s, hs, hb⟩)

end StreamClass
end PolicyDecision
