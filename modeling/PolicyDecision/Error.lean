/-!
# PolicyDecision.Error

What can be refused outside of an evaluation.

* `Error`: the causes.
* `Error.Category`: what an error is about, with the words that open its message.
* `Error.message`: the message.
-/

namespace PolicyDecision

inductive Error where
  | emptyClause
  | emptyFormula
  | tooManyPredicates
  | attributeFinderInTarget
  | tooManyClauses (clauses limit : Nat)
  | nameCollision (document : String)
  | predicateFailed (message : String)
  | predicateNotBoolean (shown : String)
  | duplicateAttributeFinder (name : String)
  | reservedVariable (name : String)
  | duplicateFunction (name : String)
  | noClauseAllowed
  | shadowedAttribute (name : String)
  | malformedConfiguration
deriving DecidableEq

namespace Error

inductive Category where
  | invalidFormula
  | indexConstruction
  | fatalUpdate
  | predicateEvaluation
  | attributeResolution
  | invalidVariable
  | invalidConfiguration
deriving DecidableEq

def Category.words : Category → String
  | .invalidFormula => "Invalid formula"
  | .indexConstruction => "Index construction failed"
  | .fatalUpdate => "Fatal update error"
  | .predicateEvaluation => "Predicate evaluation failed"
  | .attributeResolution => "Attribute resolution failed"
  | .invalidVariable => "Invalid variable binding"
  | .invalidConfiguration => "Invalid configuration"

def category : Error → Category
  | .emptyClause | .emptyFormula => .invalidFormula
  | .tooManyPredicates | .attributeFinderInTarget | .tooManyClauses .. => .indexConstruction
  | .nameCollision _ => .fatalUpdate
  | .predicateFailed _ | .predicateNotBoolean _ => .predicateEvaluation
  | .duplicateAttributeFinder _ => .attributeResolution
  | .reservedVariable _ => .invalidVariable
  | .duplicateFunction _ | .noClauseAllowed | .shadowedAttribute _ | .malformedConfiguration =>
    .invalidConfiguration

def detail : Error → String
  | .emptyClause => "a conjunctive clause requires at least one literal"
  | .emptyFormula => "a disjunctive formula requires at least one clause"
  | .tooManyPredicates => "too many distinct predicates"
  | .attributeFinderInTarget => "attribute finders are not allowed in targets"
  | .tooManyClauses clauses limit =>
    "target normalizes into " ++ toString clauses ++ " clauses, limit is " ++ toString limit
  | .nameCollision document => "document name collision on publish: '" ++ document ++ "'"
  | .predicateFailed message => message
  | .predicateNotBoolean shown =>
    "Type mismatch. Target must evaluate to a boolean value, but was: " ++ shown
  | .duplicateAttributeFinder name =>
    "an attribute finder named '" ++ name ++ "' is already registered"
  | .reservedVariable name => "cannot overwrite request attribute '" ++ name ++ "'"
  | .duplicateFunction name => "function '" ++ name ++ "' is already registered"
  | .noClauseAllowed => "index.max_clauses must be at least 1"
  | .shadowedAttribute name => "variable '" ++ name ++ "' shadows a subscription attribute"
  | .malformedConfiguration => "malformed configuration text"

def message (e : Error) : String := e.category.words ++ ": " ++ e.detail

end Error
end PolicyDecision
