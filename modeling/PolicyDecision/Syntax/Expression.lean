import PolicyDecision.Json.Basic
import PolicyDecision.Operator.Basic

/-!
# PolicyDecision.Syntax.Expression

The expression language of policy documents.

* `Expression`: operators over basic expressions, which are a head followed by path steps and a
  filter or subtemplate.
* `Head`, `Step`, `Tail`, `Filter`, `FilterStatement`: the parts of a basic expression.
-/

namespace PolicyDecision

mutual
inductive Expression where
  | basic (head : Head) (steps : List Step) (tail : Option Tail)
  | unary (op : UnaryOperator) (operand : Expression)
  | binary (op : BinaryOperator) (left right : Expression)

/-- Where a basic expression starts. -/
inductive Head where
  | group (inner : Expression)
  | value (literal : Json)
  | undefined
  | array (items : List Expression)
  | object (fields : List (String × Expression))
  | function (name : String) (arguments : List Expression)
  | identifier (name : String)
  /-- The relative node `@`. -/
  | relative

/-- What follows the steps: a filter `|-` or a subtemplate `::`. -/
inductive Tail where
  | filter (filter : Filter)
  | subtemplate (template : Expression)

/-- A path step. Negative indices count from the end of an array. -/
inductive Step where
  | key (name : String)
  | index (index : Int64)
  | wildcard
  | slice (start stop stride : Option Int64)
  | recursiveKey (name : String)
  | recursiveIndex (index : Int64)
  | condition (condition : Expression)
  /-- An attribute of the value so far; `head` takes its first value only. -/
  | attributeFinder (name : String) (arguments : List Expression) (head : Bool)

inductive Filter where
  | simple (function : String) (arguments : List Expression) (each : Bool)
  | extended (statements : List FilterStatement)

/-- Amends what `target` selects, relative to the filtered value. -/
inductive FilterStatement where
  | mk (target : List Step) (function : String) (arguments : List Expression) (each : Bool)
end

instance : Inhabited Expression := ⟨.basic .undefined [] none⟩

namespace FilterStatement

def target : FilterStatement → List Step
  | .mk target _ _ _ => target

def function : FilterStatement → String
  | .mk _ function _ _ => function

def arguments : FilterStatement → List Expression
  | .mk _ _ arguments _ => arguments

def each : FilterStatement → Bool
  | .mk _ _ _ each => each

end FilterStatement

namespace Expression

/-- The boolean that an expression is, literally. -/
def boolLiteral? : Expression → Option Bool
  | .basic (.value (.bool b)) [] none => some b
  | _ => none

/-! ## Attribute finders -/

mutual
/-- Whether an attribute finder step occurs anywhere in the tree. -/
def containsFinder : Expression → Bool
  | .basic head steps tail => headContains head || tailContains tail || stepsContain steps
  | .unary _ operand => containsFinder operand
  | .binary _ left right => containsFinder left || containsFinder right

def headContains : Head → Bool
  | .group inner => containsFinder inner
  | .array items => anyContains items
  | .object fields => fieldsContain fields
  | .function _ arguments => anyContains arguments
  | .value _ | .undefined | .identifier _ | .relative => false

def tailContains : Option Tail → Bool
  | none => false
  | some (.filter filter) => filterContains filter
  | some (.subtemplate template) => containsFinder template

def anyContains : List Expression → Bool
  | [] => false
  | e :: es => containsFinder e || anyContains es

def fieldsContain : List (String × Expression) → Bool
  | [] => false
  | (_, e) :: rest => containsFinder e || fieldsContain rest

def stepsContain : List Step → Bool
  | [] => false
  | step :: rest => stepContains step || stepsContain rest

def stepContains : Step → Bool
  | .attributeFinder _ _ _ => true
  | .condition condition => containsFinder condition
  | .key _ | .index _ | .wildcard | .slice _ _ _ | .recursiveKey _ | .recursiveIndex _ => false

def filterContains : Filter → Bool
  | .simple _ arguments _ => anyContains arguments
  | .extended statements => statementsContain statements

def statementsContain : List FilterStatement → Bool
  | [] => false
  | .mk target _ arguments _ :: rest =>
    stepsContain target || anyContains arguments || statementsContain rest
end

end Expression
end PolicyDecision
