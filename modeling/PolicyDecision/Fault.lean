import PolicyDecision.Value

/-!
# PolicyDecision.Fault

Why an evaluation fails.

A failed evaluation is itself a value, an error with a message, so that it can pass through
aggregates. `Fault` lists the causes that this library finds, `Fault.message` words them.
-/

namespace PolicyDecision

inductive Fault where
  | requiredBoolean (what : String) (value : Val)
  | operandNotBoolean (value : Val)
  | operandNotNumber (value : Val)
  | notFinite (result : Float)
  | notComparable
  | membershipInNonArray (value : Val)
  | patternNotText (value : Val)
  | invalidPattern (pattern : String) (detail : Option String)
  | divisionByZero
  | unknownFunction (name : String)
  | arity (function expected : String) (count : Nat)
  | argumentNotNatural (index : Nat)
  | blackenNonText
  | blackenReplacement
  | lengthOfScalar
  | containsNonArray
  | subjectNotObject
  | roleNotText
  | unknownAttribute (name : String)
  | attributeInTarget
  | attributeOfUndefined
  | attributeInFilter
  | noRelativeNode
  | zeroStep
  | conditionNotBoolean (value : Val)
  | filterOfUndefined
  | eachOfNonArray (value : Val)

namespace Fault

/-- The text of a double that is not finite. -/
def nonFiniteText (f : Float) : String :=
  if f.isNaN then "NaN" else if f > 0 then "inf" else "-inf"

def message : Fault → String
  | .requiredBoolean what value =>
    "Type mismatch. " ++ what ++ " must be a boolean value, but was: " ++ value.text
  | .operandNotBoolean value =>
    "Type mismatch. Boolean operation expects boolean values, but got: '" ++ value.text ++ "'."
  | .operandNotNumber value =>
    "Type mismatch. Number operation expects number values, but got: '" ++ value.text ++ "'."
  | .notFinite result => "Arithmetic result is not a finite number: " ++ nonFiniteText result
  | .notComparable => "Numbers are not comparable"
  | .membershipInNonArray value =>
    "Type mismatch. 'in' expects an array on the right side, but got: '" ++ value.text ++ "'."
  | .patternNotText value =>
    "Type mismatch. Regular expression must be a string, but got: '" ++ value.text ++ "'."
  | .invalidPattern pattern detail =>
    "Invalid regular expression '" ++ pattern ++ "'" ++ detail.elim "" (": " ++ ·)
  | .divisionByZero => "Division by zero"
  | .unknownFunction name => "Unknown function " ++ name
  | .arity function expected count =>
    "Function " ++ function ++ " expects " ++ expected ++ " argument(s), got " ++ toString count
  | .argumentNotNatural index =>
    "Argument " ++ toString index ++ " must be a non-negative integer"
  | .blackenNonText => "filter.blacken can only be applied to text"
  | .blackenReplacement => "Replacement of filter.blacken must be text"
  | .lengthOfScalar => "standard.length expects an array, object or text"
  | .containsNonArray => "standard.contains expects an array as first argument"
  | .subjectNotObject => "subject must be an object"
  | .roleNotText => "role must be a string"
  | .unknownAttribute name => "Unknown attribute " ++ name
  | .attributeInTarget => "Attribute resolution error. Attributes not allowed in target."
  | .attributeOfUndefined =>
    "Undefined value handed over as parameter to policy information point"
  | .attributeInFilter => "AttributeFinderStep not permitted in filter selection steps."
  | .noRelativeNode => "Relative expression error. No relative node."
  | .zeroStep => "Step must not be zero."
  | .conditionNotBoolean value =>
    "Type mismatch. Condition step expects a boolean value, but got: '" ++ value.text ++ "'."
  | .filterOfUndefined => "Filters cannot be applied to undefined values."
  | .eachOfNonArray value =>
    "Type mismatch. Filtering each element requires an array, but got: '" ++ value.text ++ "'."

end Fault

def Val.fault (f : Fault) : Val := .error f.message

/-- A boolean or an error stays as it is; anything else is the error that `what` is not boolean. -/
def Val.requireBool (v : Val) (what : String) : Val :=
  match v with
  | .error message => .error message
  | .defined (.bool b) => .defined (.bool b)
  | other => .fault (.requiredBoolean what other)

end PolicyDecision
