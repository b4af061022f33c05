/-!
# PolicyDecision.Operator.Basic

The operators of the expression language.
-/

namespace PolicyDecision

inductive UnaryOperator where
  | not
  | negate
deriving DecidableEq

inductive BinaryOperator where
  /-- Evaluates its right operand only where the left one does not decide. -/
  | and
  | or
  | eagerAnd
  | eagerOr
  | equals
  | notEquals
  | less
  | lessEquals
  | greater
  | greaterEquals
  | elementOf
  | regex
  | plus
  | minus
  | multiply
  | divide
  | modulo
deriving DecidableEq

end PolicyDecision
