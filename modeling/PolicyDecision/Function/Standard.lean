import PolicyDecision.Function.Library

/-!
# PolicyDecision.Function.Standard

The standard library. Functions of `filter` get the filtered value as their first argument.

* `blacken`: mask the characters of a text between its two ends.
* `remove`, `replace`: drop the filtered value, or put another one in its place.
* `length`, `contains`, `hasRole`.
-/

namespace PolicyDecision
namespace Function

/-- The natural number at a place of the argument list; 0 when there is no such argument. -/
def naturalArgument (arguments : List Val) (index : Nat) : Except Fault Nat :=
  match arguments[index]? with
  | none => .ok 0
  | some v =>
    match v.number?.bind Number.int64? with
    | some n => if 0 ≤ n then .ok n.toNat else .error (.argumentNotNatural index)
    | none => .error (.argumentNotNatural index)

/-- Mask all characters but the first `left` and the last `right` ones; a text without characters
in between stays as it is. -/
def maskText (text : List Char) (left right : Nat) (replacement : List Char) : List Char :=
  if left + right ≥ text.length then text
  else
    text.take left ++ (List.replicate (text.length - right - left) replacement).flatten ++
      text.drop (text.length - right)

def replacementArgument (arguments : List Val) : Except Fault String :=
  match arguments[3]? with
  | none => .ok "X"
  | some v =>
    match v.string? with
    | some s => .ok s
    | none => .error .blackenReplacement

def blacken (arguments : List Val) : Val :=
  match arguments with
  | [] => .fault (.arity "filter.blacken" "1 to 4" arguments.length)
  | first :: _ =>
    if arguments.length > 4 then .fault (.arity "filter.blacken" "1 to 4" arguments.length)
    else
      match first.string? with
      | none => .fault .blackenNonText
      | some text =>
        let masked : Except Fault String := do
          let left ← naturalArgument arguments 1
          let right ← naturalArgument arguments 2
          let replacement ← replacementArgument arguments
          return String.ofList (maskText text.toList left right replacement.toList)
        match masked with
        | .ok masked => .defined (.string masked)
        | .error fault => .fault fault

def remove : Function
  | [_] => .undefined
  | arguments => .fault (.arity "filter.remove" "1" arguments.length)

def replace : Function
  | [_, value] => value
  | arguments => .fault (.arity "filter.replace" "2" arguments.length)

/-- The number of elements, fields or characters. -/
def length : Function
  | [.defined (.array items)] => .defined (.ofNat items.length)
  | [.defined (.object fields)] => .defined (.ofNat fields.length)
  | [.defined (.string text)] => .defined (.ofNat text.length)
  | [_] => .fault .lengthOfScalar
  | arguments => .fault (.arity "standard.length" "1" arguments.length)

/-- Whether an array has an element that is the same JSON value. -/
def contains : Function
  | [list, value] =>
    match list.items? with
    | none => .fault .containsNonArray
    | some items =>
      match value.json? with
      | some needle => .ofBool (items.any fun item => item == needle)
      | none => .ofBool false
  | arguments => .fault (.arity "standard.contains" "2" arguments.length)

/-- Whether the field `roles` of a subject lists a role. -/
def hasRole : Function
  | [subject, role] =>
    match subject.fields? with
    | none => .fault .subjectNotObject
    | some fields =>
      match role.string? with
      | none => .fault .roleNotText
      | some role =>
        match (fields.lookup "roles").bind Json.items? with
        | some roles => .ofBool (roles.any fun r => r.string? == some role)
        | none => .ofBool false
  | arguments => .fault (.arity "auth.hasRole" "2" arguments.length)

end Function

def FunctionLibrary.standard : FunctionLibrary :=
  ⟨.ofList [
    ("filter.blacken", Function.blacken),
    ("filter.remove", Function.remove),
    ("filter.replace", Function.replace),
    ("standard.length", Function.length),
    ("standard.contains", Function.contains),
    ("auth.hasRole", Function.hasRole)]⟩

end PolicyDecision
