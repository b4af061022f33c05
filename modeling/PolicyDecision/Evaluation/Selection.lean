import PolicyDecision.Fault

/-!
# PolicyDecision.Evaluation.Selection

What path steps select from a JSON value.

* `normalizeIndex`: an index that may count from the end.
* `sliceIndices`: the indices of `[start:stop:stride]`.
* `recursiveKey`, `recursiveIndex`: matches at any depth, in the order of their containers.
-/

namespace PolicyDecision

def normalizeIndex (index : Int) (length : Nat) : Option Nat :=
  let i := if index < 0 then index + length else index
  if 0 ≤ i ∧ i < length then some i.toNat else none

/-- The `index`-th element, if there is one. -/
def elementAt (index : Int) (items : List Json) : Option Json :=
  (normalizeIndex index items.length).bind fun i => items[i]?

/-! ## Slices -/

/-- Bring a number between two bounds. -/
def clamp (low high n : Int) : Int := max low (min high n)

/-- A bound that counts from the end becomes an index. -/
def sliceBound (length : Nat) (n : Int) : Int := if n < 0 then n + length else n

/-- `start`, `start + stride`, … as long as it is before `stop`. -/
def progression (start stop stride : Int) : List Nat :=
  let distance := if stride > 0 then stop - start else start - stop
  let width := stride.natAbs
  if distance ≤ 0 then []
  else (List.range ((distance.toNat + width - 1) / width)).map fun (k : Nat) =>
      (start + k * stride).toNat

/-- Bounds are clamped to the array; an absent one stands for the end that the stride makes it. -/
def sliceIndices (length : Nat) (start stop stride : Option Int) : Except Fault (List Nat) :=
  let stride := stride.getD 1
  if stride = 0 then .error .zeroStep
  else if stride > 0 then
    let first := clamp 0 length (sliceBound length (start.getD 0))
    let last := clamp 0 length (sliceBound length (stop.getD length))
    .ok (progression first last stride)
  else
    let first := clamp (-1) (length - 1) (sliceBound length (start.getD (length - 1)))
    let last := clamp (-1) (length - 1) ((stop.map (sliceBound length)).getD (-1))
    .ok (progression first last stride)

/-! ## Any depth -/

mutual
/-- The fields of a name at any depth: that of an object before those inside its fields. -/
def recursiveKey (key : String) : Json → List Json
  | .array items => recursiveKeyItems key items
  | .object fields => (fields.lookup key).toList ++ recursiveKeyFields key fields
  | .null | .bool _ | .number _ | .string _ => []

def recursiveKeyItems (key : String) : List Json → List Json
  | [] => []
  | j :: js => recursiveKey key j ++ recursiveKeyItems key js

def recursiveKeyFields (key : String) : List (String × Json) → List Json
  | [] => []
  | (_, j) :: rest => recursiveKey key j ++ recursiveKeyFields key rest
end

mutual
/-- The elements at an index of the arrays at any depth: that of an array before those inside its
elements. -/
def recursiveIndex (index : Int) : Json → List Json
  | .array items => (elementAt index items).toList ++ recursiveIndexItems index items
  | .object fields => recursiveIndexFields index fields
  | .null | .bool _ | .number _ | .string _ => []

def recursiveIndexItems (index : Int) : List Json → List Json
  | [] => []
  | j :: js => recursiveIndex index j ++ recursiveIndexItems index js

def recursiveIndexFields (index : Int) : List (String × Json) → List Json
  | [] => []
  | (_, j) :: rest => recursiveIndex index j ++ recursiveIndexFields index rest
end

/-! ## Conditions -/

/-- The elements of an array or the values of the fields of an object. -/
def childrenOf (v : Val) : List Json :=
  match v with
  | .defined (.array items) => items
  | .defined (.object fields) => fields.map (·.2)
  | _ => []

/-- The candidates whose result is true. The first result that is an error or no boolean is the
error of the whole. -/
def holding : List Json → List Val → Val
  | candidates, results =>
    match go candidates results with
    | .ok items => .defined (.array items)
    | .error v => v
where
  go : List Json → List Val → Except Val (List Json)
    | c :: cs, r :: rs =>
      if r.isError then .error r
      else
        match r.bool? with
        | some true => (go cs rs).map (c :: ·)
        | some false => go cs rs
        | none => .error (.fault (.conditionNotBoolean r))
    | _, _ => .ok []

end PolicyDecision
