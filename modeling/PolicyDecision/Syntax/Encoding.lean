import PolicyDecision.Syntax.Document

/-!
# PolicyDecision.Syntax.Encoding

The JSON form of expressions and documents.

A node with several forms is an object with one field, named for the form; a form without content
is a string. All fields are written, in a fixed order, but for a tail, target or transformation
that is not there.
-/

namespace PolicyDecision

/-- An object with one field, the name of a form. -/
def Json.form (name : String) (content : Json) : Json := .object [(name, content)]

def UnaryOperator.name : UnaryOperator → String
  | .not => "not"
  | .negate => "negate"

def BinaryOperator.name : BinaryOperator → String
  | .and => "and"
  | .or => "or"
  | .eagerAnd => "eager_and"
  | .eagerOr => "eager_or"
  | .equals => "equals"
  | .notEquals => "not_equals"
  | .less => "less"
  | .lessEquals => "less_equals"
  | .greater => "greater"
  | .greaterEquals => "greater_equals"
  | .elementOf => "element_of"
  | .regex => "regex"
  | .plus => "plus"
  | .minus => "minus"
  | .multiply => "multiply"
  | .divide => "divide"
  | .modulo => "modulo"

def Entitlement.name : Entitlement → String
  | .permit => "permit"
  | .deny => "deny"

def wordJson (n : Int64) : Json := .ofInt n.toInt

def optionalWordJson : Option Int64 → Json
  | none => .null
  | some n => wordJson n

mutual
def Expression.toJson : Expression → Json
  | .basic head steps tail =>
    .form "basic" (.object
      (("head", head.toJson) :: ("steps", .array (stepsJson steps)) :: tailFields tail))
  | .unary op operand =>
    .form "unary" (.object [("op", .string op.name), ("operand", operand.toJson)])
  | .binary op left right =>
    .form "binary" (.object
      [("op", .string op.name), ("left", left.toJson), ("right", right.toJson)])

def Head.toJson : Head → Json
  | .group inner => .form "group" inner.toJson
  | .value literal => .form "value" literal
  | .undefined => .string "undefined"
  | .array items => .form "array" (.array (expressionsJson items))
  | .object fields => .form "object" (.array (pairsJson fields))
  | .function name arguments =>
    .form "function" (.object
      [("name", .string name), ("arguments", .array (expressionsJson arguments))])
  | .identifier name => .form "identifier" (.string name)
  | .relative => .string "relative"

/-- The field of a tail, if there is one. -/
def tailFields : Option Tail → List (String × Json)
  | none => []
  | some tail => [("tail", tail.toJson)]

def Tail.toJson : Tail → Json
  | .filter filter => .form "filter" filter.toJson
  | .subtemplate template => .form "subtemplate" template.toJson

def expressionsJson : List Expression → List Json
  | [] => []
  | e :: es => e.toJson :: expressionsJson es

def pairsJson : List (String × Expression) → List Json
  | [] => []
  | (key, e) :: rest => .array [.string key, e.toJson] :: pairsJson rest

def stepsJson : List Step → List Json
  | [] => []
  | step :: rest => step.toJson :: stepsJson rest

def Step.toJson : Step → Json
  | .key name => .form "key" (.string name)
  | .index index => .form "index" (wordJson index)
  | .wildcard => .string "wildcard"
  | .slice start stop stride =>
    .form "slice" (.object [("from", optionalWordJson start), ("to", optionalWordJson stop),
      ("step", optionalWordJson stride)])
  | .recursiveKey name => .form "recursive_key" (.string name)
  | .recursiveIndex index => .form "recursive_index" (wordJson index)
  | .condition condition => .form "condition" condition.toJson
  | .attributeFinder name arguments head =>
    .form "attribute_finder" (.object [("name", .string name),
      ("arguments", .array (expressionsJson arguments)), ("head", .bool head)])

def Filter.toJson : Filter → Json
  | .simple function arguments each =>
    .form "simple" (.object [("function", .string function),
      ("arguments", .array (expressionsJson arguments)), ("each", .bool each)])
  | .extended statements => .form "extended" (.array (filterStatementsJson statements))

def filterStatementsJson : List FilterStatement → List Json
  | [] => []
  | s :: rest => s.toJson :: filterStatementsJson rest

def FilterStatement.toJson : FilterStatement → Json
  | .mk target function arguments each =>
    .object [("target", .array (stepsJson target)), ("function", .string function),
      ("arguments", .array (expressionsJson arguments)), ("each", .bool each)]
end

def Imports.toJson (imports : Imports) : Json :=
  .object (imports.entries.map fun b => (b.1, .string b.2))

def Statement.toJson : Statement → Json
  | .valueDefinition name value =>
    .form "value_definition" (.object [("name", .string name), ("value", value.toJson)])
  | .condition e => .form "condition" e.toJson

/-- The field of an expression that may be missing. -/
def optionalField (name : String) : Option Expression → List (String × Json)
  | none => []
  | some e => [(name, e.toJson)]

def Document.toJson (d : Document) : Json :=
  .object ([("name", .string d.name), ("entitlement", .string d.entitlement.name),
      ("imports", d.imports.toJson)] ++ optionalField "target" d.target ++
    [("body", .array (d.body.map Statement.toJson)),
      ("obligations", .array (expressionsJson d.obligations)),
      ("advice", .array (expressionsJson d.advice))] ++
    optionalField "transformation" d.transformation)

/-- Documents are the same when their JSON forms are equal. -/
instance : BEq Document := ⟨fun a b => a.toJson == b.toJson⟩

end PolicyDecision
