import PolicyDecision.Json.Printer

/-!
# PolicyDecision.Value

What an expression evaluates to.

* `Val`: a JSON value, the absence of one, or an error with its message.
* `Val.collectArray`, `Val.collectObject`: aggregates; undefined members are left out and the first
  error wins.
* `Val.text`: how a value is shown.
-/

namespace PolicyDecision

inductive Val where
  | defined (json : Json)
  | undefined
  | error (message : String)

namespace Val

instance : Inhabited Val := ⟨undefined⟩

def ofBool (b : Bool) : Val := .defined (.bool b)

def emptyArray : Val := .defined (.array [])

def isError : Val → Bool
  | .error _ => true
  | _ => false

def isUndefined : Val → Bool
  | .undefined => true
  | _ => false

def isDefined : Val → Bool
  | .defined _ => true
  | _ => false

def json? : Val → Option Json
  | .defined j => some j
  | _ => none

def errorMessage? : Val → Option String
  | .error message => some message
  | _ => none

def bool? (v : Val) : Option Bool := v.json?.bind Json.bool?

def string? (v : Val) : Option String := v.json?.bind Json.string?

def number? (v : Val) : Option Number := v.json?.bind Json.number?

def items? (v : Val) : Option (List Json) := v.json?.bind Json.items?

def fields? (v : Val) : Option (List (String × Json)) := v.json?.bind Json.fields?

def text : Val → String
  | .defined j => j.text
  | .undefined => "undefined"
  | .error message => "ERROR[" ++ message ++ "]"

/-- Equality of values; the numbers `1` and `1.0` differ. -/
def beq : Val → Val → Bool
  | .defined a, .defined b => a == b
  | .undefined, .undefined => true
  | .error a, .error b => a == b
  | _, _ => false

instance : BEq Val := ⟨beq⟩

/-! ## Aggregates -/

/-- The JSON values of a list, or its first error. -/
def members : List Val → Except String (List Json)
  | [] => .ok []
  | .error message :: _ => .error message
  | .undefined :: rest => members rest
  | .defined j :: rest =>
    match members rest with
    | .ok js => .ok (j :: js)
    | .error message => .error message

def collectArray (values : List Val) : Val :=
  match members values with
  | .ok items => .defined (.array items)
  | .error message => .error message

/-- Bind the defined values to their names on top of `done`, up to the first error. -/
def bindFields : List (String × Val) → List (String × Json) → Except String (List (String × Json))
  | [], done => .ok done
  | (_, .error message) :: _, _ => .error message
  | (_, .undefined) :: rest, done => bindFields rest done
  | (key, .defined j) :: rest, done => bindFields rest (Entries.put key j done)

def collectObject (fields : List (String × Val)) : Val :=
  match bindFields fields [] with
  | .ok fields => .defined (.object fields)
  | .error message => .error message

/-- The first error of a list. -/
def firstError? (values : List Val) : Option Val := values.find? isError

end Val
end PolicyDecision
