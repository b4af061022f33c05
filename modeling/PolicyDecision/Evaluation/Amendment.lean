import PolicyDecision.Evaluation.Selection
import PolicyDecision.Stream.Resume

/-!
# PolicyDecision.Evaluation.Amendment

Rebuilding a container around the parts of it that a filter changes.

A `Selector` says what becomes of a selected value; it also gets the container, in which the value
is looked at. What is not selected stays as it is, and an amendment that gives no value removes its
part from the container.
-/

namespace PolicyDecision

/-- The stream of a selected value, given its container. -/
abbrev Selector := Json → Val → Stream Val

namespace Stream

/-- The array of the latest values. -/
def recombineArray (elements : List (Stream Val)) : Stream Val :=
  if elements.isEmpty then .just .emptyArray else .combineLatest elements Val.collectArray

/-- The object of the latest values. -/
def recombineObject (fields : List (String × Stream Val)) : Stream Val :=
  if fields.isEmpty then .just (.defined (.object []))
  else
    .combineLatest (fields.map (·.2)) fun values =>
      .collectObject ((fields.map (·.1)).zip values)

/-- The stream of a JSON value that stays. -/
def keep (j : Json) : Stream Val := .just (.defined j)

end Stream

/-- Amend the elements at the indices that are selected. -/
def amendElements (items : List Json) (selected : Nat → Bool) (select : Json → Stream Val) :
    Stream Val :=
  .recombineArray (items.mapIdx fun i j => if selected i then select j else .keep j)

/-- Amend the fields whose names are selected. -/
def amendFields (fields : List (String × Json)) (selected : String → Bool)
    (select : Json → Stream Val) : Stream Val :=
  .recombineObject (fields.map fun f => (f.1, if selected f.1 then select f.2 else .keep f.2))

mutual
/-- Amend the outermost fields of a name at any depth. -/
def amendKey (key : String) (select : Selector) : Json → Stream Val
  | .object fields =>
    .recombineObject (amendKeyFields key select (.defined (.object fields)) fields)
  | .array items => .recombineArray (amendKeyItems key select items)
  | .null => .keep .null
  | .bool b => .keep (.bool b)
  | .number n => .keep (.number n)
  | .string s => .keep (.string s)

def amendKeyFields (key : String) (select : Selector) (container : Val) :
    List (String × Json) → List (String × Stream Val)
  | [] => []
  | (k, j) :: rest =>
    (k, if k = key then select j container else amendKey key select j) ::
      amendKeyFields key select container rest

def amendKeyItems (key : String) (select : Selector) : List Json → List (Stream Val)
  | [] => []
  | j :: js => amendKey key select j :: amendKeyItems key select js
end

mutual
/-- Amend the outermost elements at an index of the arrays at any depth. -/
def amendIndex (index : Int) (select : Selector) : Json → Stream Val
  | .object fields => .recombineObject (amendIndexFields index select fields)
  | .array items =>
    .recombineArray (amendIndexItems index select (.defined (.array items))
      (normalizeIndex index items.length) 0 items)
  | .null => .keep .null
  | .bool b => .keep (.bool b)
  | .number n => .keep (.number n)
  | .string s => .keep (.string s)

def amendIndexFields (index : Int) (select : Selector) :
    List (String × Json) → List (String × Stream Val)
  | [] => []
  | (k, j) :: rest => (k, amendIndex index select j) :: amendIndexFields index select rest

def amendIndexItems (index : Int) (select : Selector) (container : Val) (chosen : Option Nat) :
    Nat → List Json → List (Stream Val)
  | _, [] => []
  | i, j :: js =>
    (if chosen = some i then select j container else amendIndex index select j) ::
      amendIndexItems index select container chosen (i + 1) js
end

end PolicyDecision
