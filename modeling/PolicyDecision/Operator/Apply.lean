import PolicyDecision.Operator.Basic
import PolicyDecision.Operator.Arithmetic
import PolicyDecision.Pattern.Dialect

/-!
# PolicyDecision.Operator.Apply

Operators on single values.

* `UnaryOperator.apply`, `BinaryOperator.apply`: total; a type error is an error value. Error
  operands pass through, the left one first. What a pattern means is up to a `PatternDialect`.
-/

namespace PolicyDecision

def UnaryOperator.apply (op : UnaryOperator) (operand : Val) : Val :=
  if operand.isError then operand
  else
    match op with
    | .not =>
      match operand.bool? with
      | some b => .ofBool (!b)
      | none => .fault (.operandNotBoolean operand)
    | .negate =>
      match operand.number? with
      | some n => n.negate
      | none => .fault (.operandNotNumber operand)

namespace BinaryOperator

/-- A boolean operation on two booleans. -/
def onBooleans (f : Bool → Bool → Bool) (left right : Val) : Val :=
  match left.bool?, right.bool? with
  | some a, some b => .ofBool (f a b)
  | none, _ => .fault (.operandNotBoolean left)
  | _, none => .fault (.operandNotBoolean right)

/-- An operation on two numbers. -/
def onNumbers (f : Number → Number → Val) (left right : Val) : Val :=
  match left.number?, right.number? with
  | some a, some b => f a b
  | some _, none => .fault (.operandNotNumber right)
  | none, _ => .fault (.operandNotNumber left)

/-- Two values without errors are equal if their JSON values are, or if both are undefined. -/
def sameValue (left right : Val) : Bool :=
  match left.json?, right.json? with
  | some a, some b => a.sameValue b
  | _, _ => left.isUndefined && right.isUndefined

def compare (accept : Ordering → Bool) (left right : Val) : Val :=
  onNumbers (fun a b =>
    match a.compare? b with
    | some o => .ofBool (accept o)
    | none => .fault .notComparable) left right

def membership (left right : Val) : Val :=
  match right.items? with
  | none => .fault (.membershipInNonArray right)
  | some items =>
    match left.json? with
    | some needle => .ofBool (items.any needle.sameValue)
    | none => .ofBool false

def matching (left right : Val) (patterns : PatternDialect) : Val :=
  match right.string? with
  | none => .fault (.patternNotText right)
  | some pattern =>
    match left.string? with
    | none => .ofBool false
    | some text =>
      match patterns.compileWhole pattern with
      | .ok test => .ofBool (test text)
      | .error detail => .fault (.invalidPattern pattern detail)

/-- A string as it is, any other value as it is shown. -/
def plainText (v : Val) : String := v.string?.getD v.text

/-- Texts are joined, numbers are added. -/
def addOrJoin (left right : Val) : Val :=
  if left.string?.isSome || right.string?.isSome then
    .defined (.string (plainText left ++ plainText right))
  else onNumbers Number.add left right

def applyDefined (op : BinaryOperator) (left right : Val) (patterns : PatternDialect) : Val :=
  match op with
  | .and | .eagerAnd => onBooleans (· && ·) left right
  | .or | .eagerOr => onBooleans (· || ·) left right
  | .equals => .ofBool (sameValue left right)
  | .notEquals => .ofBool (!sameValue left right)
  | .less => compare (· == .lt) left right
  | .lessEquals => compare (· != .gt) left right
  | .greater => compare (· == .gt) left right
  | .greaterEquals => compare (· != .lt) left right
  | .elementOf => membership left right
  | .regex => matching left right patterns
  | .plus => addOrJoin left right
  | .minus => onNumbers Number.subtract left right
  | .multiply => onNumbers Number.multiply left right
  | .divide => onNumbers Number.divide left right
  | .modulo => onNumbers Number.modulo left right

def apply (op : BinaryOperator) (left right : Val) (patterns : PatternDialect := .standard) : Val :=
  if left.isError then left
  else if right.isError then right
  else op.applyDefined left right patterns

end BinaryOperator
end PolicyDecision
