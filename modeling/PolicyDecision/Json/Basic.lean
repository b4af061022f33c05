import PolicyDecision.Table
import PolicyDecision.Json.Number

/-!
# PolicyDecision.Json.Basic

JSON values. The fields of an object keep the order in which they were put.

* `Json.field?`, `Json.items?`: selection.
* `Json.beq`: equality in which field order does not matter and `1` differs from `1.0`.
* `Json.sameValue`: equality in which numbers compare by value.
* `Json.sortKeys`: the same value with the fields of every object in key order.
-/

namespace PolicyDecision

inductive Json where
  | null
  | bool (value : Bool)
  | number (value : Number)
  | string (value : String)
  | array (items : List Json)
  | object (fields : List (String × Json))

namespace Json

instance : Inhabited Json := ⟨null⟩

def ofInt (value : Int) : Json := .number (.ofInt value)

def ofNat (value : Nat) : Json := .number (.ofNat value)

def ofFloat (value : Float) : Json := .number (.float value)

instance : Coe String Json := ⟨.string⟩
instance : Coe Bool Json := ⟨.bool⟩

def bool? : Json → Option Bool
  | .bool b => some b
  | _ => none

def string? : Json → Option String
  | .string s => some s
  | _ => none

def number? : Json → Option Number
  | .number n => some n
  | _ => none

def items? : Json → Option (List Json)
  | .array items => some items
  | _ => none

def fields? : Json → Option (List (String × Json))
  | .object fields => some fields
  | _ => none

def field? (j : Json) (key : String) : Option Json :=
  j.fields?.bind (·.lookup key)

/-! ## Equality -/

mutual
def beq : Json → Json → Bool
  | .null, .null => true
  | .bool a, .bool b => a == b
  | .number a, .number b => a == b
  | .string a, .string b => a == b
  | .array a, .array b => beqItems a b
  | .object a, .object b => a.length == b.length && beqFields a b
  | _, _ => false

def beqItems : List Json → List Json → Bool
  | [], [] => true
  | a :: as, b :: bs => beq a b && beqItems as bs
  | _, _ => false

/-- Every field of the first list has an equal partner in the second. -/
def beqFields : List (String × Json) → List (String × Json) → Bool
  | [], _ => true
  | (k, v) :: rest, other =>
    (match other.lookup k with
     | some w => beq v w
     | none => false) && beqFields rest other
end

instance : BEq Json := ⟨beq⟩

mutual
def sameValue : Json → Json → Bool
  | .null, .null => true
  | .bool a, .bool b => a == b
  | .number a, .number b => a.sameValue b
  | .string a, .string b => a == b
  | .array a, .array b => sameItems a b
  | .object a, .object b => a.length == b.length && sameFields a b
  | _, _ => false

def sameItems : List Json → List Json → Bool
  | [], [] => true
  | a :: as, b :: bs => sameValue a b && sameItems as bs
  | _, _ => false

def sameFields : List (String × Json) → List (String × Json) → Bool
  | [], _ => true
  | (k, v) :: rest, other =>
    (match other.lookup k with
     | some w => sameValue v w
     | none => false) && sameFields rest other
end

/-! ## Key order -/

mutual
def sortKeys : Json → Json
  | .array items => .array (sortKeysItems items)
  | .object fields => .object (sortKeysFields fields)
  | .null => .null
  | .bool b => .bool b
  | .number n => .number n
  | .string s => .string s

def sortKeysItems : List Json → List Json
  | [] => []
  | j :: js => sortKeys j :: sortKeysItems js

def sortKeysFields : List (String × Json) → List (String × Json)
  | [] => []
  | (k, v) :: rest => SortedTable.place k (sortKeys v) (sortKeysFields rest)
end

end Json
end PolicyDecision
