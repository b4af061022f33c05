import PolicyDecision.Evaluation.Evaluate

/-!
# PolicyDecision.Proofs.Evaluation.Direct

What expressions mean where nothing is subscribed, as a recursion over the syntax.

* `Scope`: what such an evaluation reads of its context.
* `Val.arrayOf`, `Val.objectOf`, `Val.selection`: aggregates of values.
* `Json.replaceKey`, `Json.replaceIndex`: a container with its selected parts replaced.
* `Expression.denote`: the value of an expression; one function per form of the syntax.
-/

namespace PolicyDecision

/-- What the value of an expression depends on: functions by the names that the expression uses, the
dialect of its patterns, the variables, and what `@` stands for. -/
structure Scope where
  /-- The result of a function for arguments without errors. -/
  result : String → List Val → Val
  patterns : PatternDialect
  valueOf : String → Val
  node : Val

namespace Scope

def withNode (s : Scope) (node : Val) : Scope := { s with node }

def relative (s : Scope) : Val :=
  match s.node with
  | .undefined => .fault .noRelativeNode
  | node => node

end Scope

/-- The result of a function that is in the library. -/
def FunctionLibrary.result (library : FunctionLibrary) (name : String) (arguments : List Val) :
    Val :=
  match library.functions.get? name with
  | some function => function arguments
  | none => .fault (.unknownFunction name)

def Context.scope (ctx : Context) : Scope where
  result name := ctx.functions.result (ctx.resolve name)
  patterns := ctx.patterns
  valueOf := ctx.valueOf
  node := ctx.relativeNode

/-! ## Values of several operands -/

namespace Val

/-- The first error of the operands; the result where there is none. -/
def orFirstError (operands : List Val) (result : Val) : Val :=
  match operands.find? isError with
  | some failure => failure
  | none => result

/-- The array of the defined values. -/
def arrayOf (values : List Val) : Val :=
  orFirstError values (.defined (.array (values.filterMap json?)))

/-- The object of the defined fields; a name that comes again keeps its place. -/
def objectOf (fields : List (String × Val)) : Val :=
  orFirstError (fields.map (·.2))
    (.defined (.object (Entries.ofList (fields.filterMap fun f => f.2.json?.map (f.1, ·)))))

/-- `&&` or `||`, where the right operand counts only if the left one is a boolean that does not
decide. -/
def lazily (op : BinaryOperator) (deciding : Bool) (left right : Val) (patterns : PatternDialect) :
    Val :=
  match left with
  | .error message => .error message
  | .defined (.bool b) =>
    if b = deciding then .ofBool deciding
    else orFirstError [right] (op.applyDefined (.ofBool b) right patterns)
  | left => .fault (.operandNotBoolean left)

/-- Why a condition does not hold and does not fail to hold either. -/
def undecided? : Val → Option Val
  | .error message => some (.error message)
  | .defined (.bool _) => none
  | v => some (.fault (.conditionNotBoolean v))

/-- The candidates for which a condition is true; the first one that it does not decide on makes the
error of the whole. -/
def selection (condition : Json → Val) (candidates : List Json) : Val :=
  match candidates.findSome? fun j => (condition j).undecided? with
  | some failure => failure
  | none => .defined (.array (candidates.filter fun j => (condition j).bool? == some true))

/-- A filter function on a value, or on each element of an array. -/
def filtered (value : Val) (function : List Val → Val) (arguments : List Val) (each : Bool) :
    Val :=
  match value, each with
  | .error message, _ => .error message
  | .undefined, _ => .fault .filterOfUndefined
  | .defined j, false => orFirstError arguments (function (.defined j :: arguments))
  | .defined (.array items), true =>
    orFirstError arguments (arrayOf (items.map fun j => function (.defined j :: arguments)))
  | value, true => .fault (.eachOfNonArray value)

/-- What becomes of a value that a filter reaches under a condition. -/
def replacedIf (result : Val) (j : Json) (replacement : Val) : Val :=
  match result.undecided?, result.bool? with
  | some failure, _ => failure
  | none, some true => replacement
  | none, _ => .defined j

end Val

/-! ## Containers with replaced parts -/

/-- The replacement of a selected value, given its container. -/
abbrev Replacement := Json → Val → Val

namespace Json

def replaceElements (items : List Json) (selected : Nat → Bool) (replace : Json → Val) : Val :=
  .arrayOf (items.mapIdx fun i j => if selected i then replace j else .defined j)

def replaceFields (fields : List (String × Json)) (selected : String → Bool)
    (replace : Json → Val) : Val :=
  .objectOf (fields.map fun f => (f.1, if selected f.1 then replace f.2 else .defined f.2))

mutual
/-- Replace the outermost fields of a name at any depth. -/
def replaceKey (key : String) (replace : Replacement) : Json → Val
  | .object fields => .objectOf (replaceKeyFields key replace (.defined (.object fields)) fields)
  | .array items => .arrayOf (replaceKeyItems key replace items)
  | .null => .defined .null
  | .bool b => .defined (.bool b)
  | .number n => .defined (.number n)
  | .string s => .defined (.string s)

def replaceKeyFields (key : String) (replace : Replacement) (container : Val) :
    List (String × Json) → List (String × Val)
  | [] => []
  | (k, j) :: rest =>
    (k, if k = key then replace j container else replaceKey key replace j) ::
      replaceKeyFields key replace container rest

def replaceKeyItems (key : String) (replace : Replacement) : List Json → List Val
  | [] => []
  | j :: js => replaceKey key replace j :: replaceKeyItems key replace js
end

mutual
/-- Replace the outermost elements at an index of the arrays at any depth. -/
def replaceIndex (index : Int) (replace : Replacement) : Json → Val
  | .object fields => .objectOf (replaceIndexFields index replace fields)
  | .array items =>
    .arrayOf (replaceIndexItems index replace (.defined (.array items))
      (normalizeIndex index items.length) 0 items)
  | .null => .defined .null
  | .bool b => .defined (.bool b)
  | .number n => .defined (.number n)
  | .string s => .defined (.string s)

def replaceIndexFields (index : Int) (replace : Replacement) :
    List (String × Json) → List (String × Val)
  | [] => []
  | (k, j) :: rest => (k, replaceIndex index replace j) :: replaceIndexFields index replace rest

def replaceIndexItems (index : Int) (replace : Replacement) (container : Val)
    (chosen : Option Nat) : Nat → List Json → List Val
  | _, [] => []
  | i, j :: js =>
    (if chosen = some i then replace j container else replaceIndex index replace j) ::
      replaceIndexItems index replace container chosen (i + 1) js
end

end Json

/-! ## Expressions -/

mutual
/-- The value of an expression. Attributes have none. -/
def Expression.denote : Expression → Scope → Val
  | .basic head steps tail, s => denoteTail tail (denoteSteps steps (head.denote s) s) s
  | .unary op operand, s => op.apply (operand.denote s)
  | .binary op left right, s =>
    match op with
    | .and => .lazily .and false (left.denote s) (right.denote s) s.patterns
    | .or => .lazily .or true (left.denote s) (right.denote s) s.patterns
    | op =>
      .orFirstError [left.denote s, right.denote s]
        (op.applyDefined (left.denote s) (right.denote s) s.patterns)
termination_by structural e => e

def Head.denote : Head → Scope → Val
  | .group inner, s => inner.denote s
  | .value literal, _ => .defined literal
  | .undefined, _ => .undefined
  | .array items, s => .arrayOf (denoteAll items s)
  | .object fields, s => .objectOf (denoteFields fields s)
  | .function name arguments, s =>
    .orFirstError (denoteAll arguments s) (s.result name (denoteAll arguments s))
  | .identifier name, s => s.valueOf name
  | .relative, s => s.relative
termination_by structural head => head

def denoteAll : List Expression → Scope → List Val
  | [], _ => []
  | e :: es, s => e.denote s :: denoteAll es s
termination_by structural es => es

def denoteFields : List (String × Expression) → Scope → List (String × Val)
  | [], _ => []
  | (key, e) :: rest, s => (key, e.denote s) :: denoteFields rest s
termination_by structural fields => fields

def denoteSteps : List Step → Val → Scope → Val
  | [], v, _ => v
  | step :: rest, v, s => denoteSteps rest (step.denote v s) s
termination_by structural steps => steps

def denoteTail : Option Tail → Val → Scope → Val
  | none, v, _ => v
  | some (.filter filter), v, s => filter.denote v (s.withNode v)
  | some (.subtemplate template), v, s =>
    match v with
    | .error message => .error message
    | .defined (.array items) =>
      .arrayOf (items.map fun j => template.denote (s.withNode (.defined j)))
    | v => template.denote (s.withNode v)
termination_by structural tail => tail

/-- What a step selects from a value. -/
def Step.denote : Step → Val → Scope → Val
  | _, .error message, _ => .error message
  | .key name, v, _ => ((v.fields?.bind (·.lookup name)).map .defined).getD .undefined
  | .index index, v, _ => ((v.items?.bind (elementAt index.toInt)).map .defined).getD .undefined
  | .wildcard, v, _ => .defined (.array (childrenOf v))
  | .slice start stop stride, v, _ =>
    match v.items? with
    | none => .emptyArray
    | some items =>
      match sliceIndices items.length (start.map (·.toInt)) (stop.map (·.toInt))
          (stride.map (·.toInt)) with
      | .ok indices => .defined (.array (indices.filterMap (items[·]?)))
      | .error fault => .fault fault
  | .recursiveKey name, v, _ => .defined (.array ((v.json?.map (recursiveKey name)).getD []))
  | .recursiveIndex index, v, _ =>
    .defined (.array ((v.json?.map (recursiveIndex index.toInt)).getD []))
  | .condition condition, v, s =>
    .selection (fun j => condition.denote (s.withNode (.defined j))) (childrenOf v)
  | .attributeFinder _ _ _, _, _ => .fault .attributeInTarget
termination_by structural step => step

def Filter.denote : Filter → Val → Scope → Val
  | _, .error message, _ => .error message
  | _, .undefined, _ => .fault .filterOfUndefined
  | .simple function arguments each, v, s =>
    v.filtered (s.result function) (denoteAll arguments s) each
  | .extended statements, v, s => denoteStatements statements v s
termination_by structural filter => filter

/-- The statements of a filter, one after the other. -/
def denoteStatements : List FilterStatement → Val → Scope → Val
  | [], v, _ => v
  | statement :: rest, v, s =>
    denoteStatements rest
      (match v with
        | .error message => .error message
        | v => statement.denote v s) s
termination_by structural statements => statements

def FilterStatement.denote : FilterStatement → Val → Scope → Val
  | .mk target function arguments each, v, s =>
    replaceTarget target
      (fun selected container =>
        selected.filtered (s.result function) (denoteAll arguments (s.withNode container)) each) v s
termination_by structural statement => statement

/-- Replace what a path selects from a value. -/
def replaceTarget : List Step → (Val → Val → Val) → Val → Scope → Val
  | [], run, v, _ => run v v
  | step :: rest, run, v, s =>
    match v with
    | .error message => .error message
    | v =>
      step.replace
        (fun j container =>
          match rest with
          | [] => run (.defined j) container
          | _ :: _ => replaceTarget rest run (.defined j) s) v s
termination_by structural steps => steps

/-- Replace what a step selects from a value. -/
def Step.replace : Step → Replacement → Val → Scope → Val
  | .key name, replace, v, _ =>
    match v.fields? with
    | some fields => Json.replaceFields fields (· == name) fun j => replace j v
    | none => v
  | .index index, replace, v, _ =>
    match v.items? with
    | some items =>
      Json.replaceElements items (some · == normalizeIndex index.toInt items.length) fun j =>
        replace j v
    | none => v
  | .wildcard, replace, v, _ =>
    match v with
    | .defined (.array items) => Json.replaceElements items (fun _ => true) fun j => replace j v
    | .defined (.object fields) => Json.replaceFields fields (fun _ => true) fun j => replace j v
    | v => v
  | .slice start stop stride, replace, v, _ =>
    match v.items? with
    | none => v
    | some items =>
      match sliceIndices items.length (start.map (·.toInt)) (stop.map (·.toInt))
          (stride.map (·.toInt)) with
      | .ok indices => Json.replaceElements items indices.contains fun j => replace j v
      | .error fault => .fault fault
  | .recursiveKey name, replace, v, _ =>
    match v with
    | .defined j => j.replaceKey name replace
    | v => v
  | .recursiveIndex index, replace, v, _ =>
    match v with
    | .defined j => j.replaceIndex index.toInt replace
    | v => v
  | .condition condition, replace, v, s =>
    let check (j : Json) : Val :=
      .replacedIf (condition.denote (s.withNode (.defined j))) j (replace j v)
    match v with
    | .defined (.array items) => Json.replaceElements items (fun _ => true) check
    | .defined (.object fields) => Json.replaceFields fields (fun _ => true) check
    | v => v
  | .attributeFinder _ _ _, _, _, _ => .fault .attributeInFilter
termination_by structural step => step
end

end PolicyDecision
