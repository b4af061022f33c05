import PolicyDecision.Context
import PolicyDecision.Evaluation.Amendment
import PolicyDecision.Operator.Apply

/-!
# PolicyDecision.Evaluation.Evaluate

Evaluating expressions to streams of values.

* `Expression.evaluate`: composite values subscribe to all of their operands and combine the latest
  values; `&&` and `||` subscribe to their right operand only while the left one does not decide.
* `Step.apply`, `Filter.apply`, `FilterStatement.apply`: what follows a value switches to the latest
  value before it.
* `Step.amend`: what a filter statement makes of the values that a step selects.
-/

namespace PolicyDecision

/-- The value of a name in a context: `@` must be bound to a value. -/
def Context.relative (ctx : Context) : Val :=
  match ctx.relativeNode with
  | .undefined => .fault .noRelativeNode
  | node => node

/-- The result of `&&` or `||` where the left operand decides it, with the deciding boolean. -/
def decided? (deciding : Bool) (left : Val) : Option Val :=
  if left.isError then some left
  else
    match left.bool? with
    | some b => if b == deciding then some (.ofBool b) else none
    | none => some (.fault (.operandNotBoolean left))

/-- `&&` and `||`, given the boolean with which the left operand decides the result. -/
def evaluateLazy (op : BinaryOperator) (deciding : Bool) (left right : Stream Val)
    (patterns : PatternDialect) : Stream Val :=
  left.switchMap fun a =>
    match decided? deciding a with
    | some result => .just result
    | none => right.map fun b => op.apply a b patterns

/-- Apply a filter function to a value, or to each element of an array, with the latest values of
its arguments. A function that gives no value removes its element. -/
def applyFunction (value : Val) (function : String) (arguments : List (Stream Val)) (each : Bool)
    (ctx : Context) : Stream Val :=
  match value with
  | .error message => .just (.error message)
  | .undefined => .fault .filterOfUndefined
  | .defined j =>
    if each && j.items?.isNone then .fault (.eachOfNonArray value)
    else
      .combineLatest arguments fun values =>
        match Val.firstError? values with
        | some error => error
        | none =>
          let call (j : Json) := ctx.functions.call (ctx.resolve function) (.defined j :: values)
          match j.items? with
          | some items => if each then .collectArray (items.map call) else call j
          | none => call j

/-- Follow an attribute for the latest values of its arguments. -/
def followAttribute (name : String) (arguments : List (Stream Val)) (head : Bool) (parent : Val)
    (ctx : Context) : Stream Val :=
  if ctx.inTarget then .fault .attributeInTarget
  else if parent.isUndefined then .fault .attributeOfUndefined
  else
    let values := Stream.switchMap (.combineLatest arguments id) fun values =>
      match Val.firstError? values with
      | some error => .just error
      | none => ctx.attributes.follow (ctx.resolve name) parent values ctx.bindings
    if head then values.first else values

/-- The result of a condition on a value that a filter may change. -/
def amendIf (result : Val) (j : Json) (select : Json → Stream Val) : Stream Val :=
  if result.isError then .just result
  else
    match result.bool? with
    | some true => select j
    | some false => .keep j
    | none => .fault (.conditionNotBoolean result)

mutual
def Expression.evaluate : Expression → Context → Stream Val
  | .basic head steps tail, ctx => applyTail tail (applySteps steps (head.evaluate ctx) ctx) ctx
  | .unary op operand, ctx => (operand.evaluate ctx).map op.apply
  | .binary op left right, ctx =>
    match op with
    | .and => evaluateLazy .and false (left.evaluate ctx) (right.evaluate ctx) ctx.patterns
    | .or => evaluateLazy .or true (left.evaluate ctx) (right.evaluate ctx) ctx.patterns
    | op =>
      .combineLatest [left.evaluate ctx, right.evaluate ctx] fun values =>
        match values with
        | [a, b] => op.apply a b ctx.patterns
        | _ => .undefined
termination_by structural e => e

def Head.evaluate : Head → Context → Stream Val
  | .group inner, ctx => inner.evaluate ctx
  | .value literal, _ => .just (.defined literal)
  | .undefined, _ => .just .undefined
  | .array items, ctx => .recombineArray (evaluateAll items ctx)
  | .object fields, ctx => .recombineObject (evaluateFields fields ctx)
  | .function name arguments, ctx =>
    .combineLatest (evaluateAll arguments ctx) (ctx.functions.call (ctx.resolve name))
  | .identifier name, ctx => .just (ctx.valueOf name)
  | .relative, ctx => .just ctx.relative
termination_by structural head => head

def evaluateAll : List Expression → Context → List (Stream Val)
  | [], _ => []
  | e :: es, ctx => e.evaluate ctx :: evaluateAll es ctx
termination_by structural es => es

def evaluateFields : List (String × Expression) → Context → List (String × Stream Val)
  | [], _ => []
  | (key, e) :: rest, ctx => (key, e.evaluate ctx) :: evaluateFields rest ctx
termination_by structural fields => fields

def applySteps : List Step → Stream Val → Context → Stream Val
  | [], source, _ => source
  | step :: rest, source, ctx =>
    applySteps rest (source.switchMap fun value => step.apply value ctx) ctx
termination_by structural steps => steps

def applyTail : Option Tail → Stream Val → Context → Stream Val
  | none, source, _ => source
  | some (.filter filter), source, ctx =>
    source.switchMap fun value => filter.apply value (ctx.withRelative value)
  | some (.subtemplate template), source, ctx =>
    source.switchMap fun value =>
      match value with
      | .error message => .just (.error message)
      | .defined (.array items) =>
        .recombineArray (items.map fun j => template.evaluate (ctx.withRelative (.defined j)))
      | value => template.evaluate (ctx.withRelative value)
termination_by structural tail => tail

/-- The value that a step selects from its parent. An error stays; a step that does not fit its
parent selects nothing. -/
def Step.apply : Step → Val → Context → Stream Val
  | _, .error message, _ => .just (.error message)
  | .key name, parent, _ =>
    .just (((parent.fields?.bind (·.lookup name)).map Val.defined).getD .undefined)
  | .index index, parent, _ =>
    .just (((parent.items?.bind (elementAt index.toInt)).map Val.defined).getD .undefined)
  | .wildcard, parent, _ => .just (.defined (.array (childrenOf parent)))
  | .slice start stop stride, parent, _ =>
    match parent.items? with
    | none => .just .emptyArray
    | some items =>
      match sliceIndices items.length (start.map (·.toInt)) (stop.map (·.toInt))
          (stride.map (·.toInt)) with
      | .ok indices => .just (.defined (.array (indices.filterMap (items[·]?))))
      | .error fault => .fault fault
  | .recursiveKey name, parent, _ =>
    .just (.defined (.array ((parent.json?.map (recursiveKey name)).getD [])))
  | .recursiveIndex index, parent, _ =>
    .just (.defined (.array ((parent.json?.map (recursiveIndex index.toInt)).getD [])))
  | .condition condition, parent, ctx =>
    let candidates := childrenOf parent
    if candidates.isEmpty then .just .emptyArray
    else
      .combineLatest
        (candidates.map fun j => condition.evaluate (ctx.withRelative (.defined j)))
        (holding candidates)
  | .attributeFinder name arguments head, parent, ctx =>
    followAttribute name (evaluateAll arguments ctx) head parent ctx
termination_by structural step => step

/-- A filter on a value, which is the relative node of the context. Statements work one after the
other, each on the latest output of the one before. -/
def Filter.apply : Filter → Val → Context → Stream Val
  | _, .error message, _ => .just (.error message)
  | _, .undefined, _ => .fault .filterOfUndefined
  | .simple function arguments each, value, ctx =>
    applyFunction value function (evaluateAll arguments ctx) each ctx
  | .extended statements, value, ctx => applyStatements statements (.just value) ctx
termination_by structural filter => filter

def applyStatements : List FilterStatement → Stream Val → Context → Stream Val
  | [], source, _ => source
  | s :: rest, source, ctx =>
    applyStatements rest
      (source.switchMap fun value =>
        match value with
        | .error message => .just (.error message)
        | value => s.apply value ctx) ctx
termination_by structural statements => statements

/-- Amend what the target of a statement selects from a value. The arguments see the container
of the selected value as relative node, or the value itself where the target is empty. -/
def FilterStatement.apply : FilterStatement → Val → Context → Stream Val
  | .mk target function arguments each, value, ctx =>
    amendTarget target
      (fun selected container =>
        applyFunction selected function (evaluateAll arguments (ctx.withRelative container)) each
          ctx)
      value ctx
termination_by structural statement => statement

/-- Amend what a path selects from a value; `run` is applied to it and to its container. -/
def amendTarget : List Step → (Val → Val → Stream Val) → Val → Context → Stream Val
  | [], run, parent, _ => run parent parent
  | step :: rest, run, parent, ctx =>
    match parent with
    | .error message => .just (.error message)
    | parent =>
      step.amend
        (fun j container =>
          match rest with
          | [] => run (.defined j) container
          | _ :: _ => amendTarget rest run (.defined j) ctx)
        parent ctx
termination_by structural steps => steps

/-- Amend what a step selects from its parent. -/
def Step.amend : Step → Selector → Val → Context → Stream Val
  | .key name, select, parent, _ =>
    match parent.fields? with
    | some fields => amendFields fields (· == name) fun j => select j parent
    | none => .just parent
  | .index index, select, parent, _ =>
    match parent.items? with
    | some items =>
      amendElements items (some · == normalizeIndex index.toInt items.length) fun j =>
        select j parent
    | none => .just parent
  | .wildcard, select, parent, _ =>
    match parent with
    | .defined (.array items) => amendElements items (fun _ => true) fun j => select j parent
    | .defined (.object fields) => amendFields fields (fun _ => true) fun j => select j parent
    | parent => .just parent
  | .slice start stop stride, select, parent, _ =>
    match parent.items? with
    | none => .just parent
    | some items =>
      match sliceIndices items.length (start.map (·.toInt)) (stop.map (·.toInt))
          (stride.map (·.toInt)) with
      | .ok indices => amendElements items indices.contains fun j => select j parent
      | .error fault => .fault fault
  | .recursiveKey name, select, parent, _ =>
    match parent with
    | .defined j => amendKey name select j
    | parent => .just parent
  | .recursiveIndex index, select, parent, _ =>
    match parent with
    | .defined j => amendIndex index.toInt select j
    | parent => .just parent
  | .condition condition, select, parent, ctx =>
    let check (j : Json) : Stream Val :=
      (condition.evaluate (ctx.withRelative (.defined j))).switchMap fun result =>
        amendIf result j fun j => select j parent
    match parent with
    | .defined (.array items) => amendElements items (fun _ => true) check
    | .defined (.object fields) => amendFields fields (fun _ => true) check
    | parent => .just parent
  | .attributeFinder _ _ _, _, _, _ => .fault .attributeInFilter
termination_by structural step => step
end

end PolicyDecision
