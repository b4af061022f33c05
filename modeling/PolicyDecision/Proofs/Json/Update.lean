import PolicyDecision.Proofs.Evaluation.Direct

/-!
# PolicyDecision.Proofs.Json.Update

Replacing parts of a JSON value by their positions.

* `Path`: the way from a value to a part of it; `Json.at?`: that part.
* `Json.HasDistinctKeys`: no object in the value has two fields of one name.
* `Json.update`: the value with changed parts; a part that is left without a value is removed.
* `Json.changed`: the values that are put in place, in document order.
* `Json.revise_eq`: collecting changed parts into their containers updates the value, unless one of
  them is an error.
-/

namespace PolicyDecision

/-! ## Positions -/

/-- A child of a container. -/
inductive Key where
  | field (name : String)
  | element (index : Nat)
deriving DecidableEq

abbrev Path := List Key

namespace Json

def child? : Json → Key → Option Json
  | .object fields, .field name => fields.lookup name
  | .array items, .element i => items[i]?
  | _, _ => none

theorem isSome_lookup_iff {as : List (String × Json)} {name : String} :
    (as.lookup name).isSome = true ↔ name ∈ Entries.keys as := by
  rw [List.lookup_isSome_iff, Entries.keys, List.mem_map]
  exact exists_congr fun f => and_congr_right fun _ => beq_iff_eq.trans eq_comm

/-- The part of a value at a position. -/
def at? (v : Json) : Path → Option Json
  | [] => some v
  | k :: p => (v.child? k).bind fun w => w.at? p

theorem at?_append (v : Json) (p q : Path) : v.at? (p ++ q) = (v.at? p).bind (·.at? q) := by
  induction p generalizing v with
  | nil => rfl
  | cons k p ih =>
    rw [List.cons_append, at?, at?, Option.bind_assoc]
    exact congrArg _ (funext ih)

theorem sizeOf_child_lt {v w : Json} {k : Key} (h : v.child? k = some w) :
    sizeOf w < sizeOf v := by
  cases v with
  | array items =>
    cases k with
    | field name => cases h
    | element i =>
      have hlt := List.sizeOf_lt_of_mem (List.mem_of_getElem? h)
      simp only [array.sizeOf_spec]
      omega
  | object fields =>
    cases k with
    | field name =>
      have hlt := List.sizeOf_lt_of_mem (SortedTable.mem_of_lookup h)
      simp only [Prod.mk.sizeOf_spec] at hlt
      simp only [object.sizeOf_spec]
      omega
    | element i => cases h
  | null => cases h
  | bool b => cases h
  | number n => cases h
  | string s => cases h

/-- What holds of a value whenever it holds of its children holds of every value. -/
theorem child_induction {motive : Json → Prop}
    (h : ∀ v, (∀ k w, v.child? k = some w → motive w) → motive v) (v : Json) : motive v :=
  h v fun _ w _ => child_induction h w
termination_by sizeOf v
decreasing_by exact sizeOf_child_lt ‹_›

/-! ## Distinct keys -/

mutual
/-- No object has two fields of one name, as it is where fields are put by their names. -/
def HasDistinctKeys : Json → Prop
  | .array items => ItemsHaveDistinctKeys items
  | .object fields => (Entries.keys fields).Nodup ∧ FieldsHaveDistinctKeys fields
  | .null | .bool _ | .number _ | .string _ => True

def ItemsHaveDistinctKeys : List Json → Prop
  | [] => True
  | j :: js => j.HasDistinctKeys ∧ ItemsHaveDistinctKeys js

def FieldsHaveDistinctKeys : List (String × Json) → Prop
  | [] => True
  | (_, j) :: rest => j.HasDistinctKeys ∧ FieldsHaveDistinctKeys rest
end

theorem ItemsHaveDistinctKeys.of_mem {items : List Json} (h : ItemsHaveDistinctKeys items)
    {j : Json} (hj : j ∈ items) : j.HasDistinctKeys := by
  induction items with
  | nil => cases hj
  | cons i rest ih =>
    rcases List.mem_cons.1 hj with rfl | hj
    · exact h.1
    · exact ih h.2 hj

theorem FieldsHaveDistinctKeys.of_mem {fields : List (String × Json)}
    (h : FieldsHaveDistinctKeys fields) {f : String × Json} (hf : f ∈ fields) :
    f.2.HasDistinctKeys := by
  induction fields with
  | nil => cases hf
  | cons f' rest ih =>
    rcases List.mem_cons.1 hf with rfl | hf
    · exact h.1
    · exact ih h.2 hf

theorem HasDistinctKeys.child {v w : Json} {k : Key} (h : v.HasDistinctKeys)
    (hw : v.child? k = some w) : w.HasDistinctKeys := by
  cases v with
  | array items =>
    cases k with
    | field name => cases hw
    | element i => exact ItemsHaveDistinctKeys.of_mem h (List.mem_of_getElem? hw)
  | object fields =>
    cases k with
    | field name => exact FieldsHaveDistinctKeys.of_mem h.2 (SortedTable.mem_of_lookup hw)
    | element i => cases hw
  | null => cases hw
  | bool b => cases hw
  | number n => cases hw
  | string s => cases hw

end Json

/-! ## Changes -/

/-- What takes the place of the parts of a value, by their positions. Parts inside of a changed part
go with it. -/
abbrev Change := Path → Option Val

namespace Change

/-- The changes inside a child. -/
def below (change : Change) (k : Key) : Change := fun p => change (k :: p)

/-- Nothing changes. -/
def none : Change := fun _ => Option.none

/-- The whole value changes. -/
def whole (x : Val) : Change := fun p => if p = [] then some x else Option.none

/-- No changed part lies inside of another one. -/
def IsApart (change : Change) : Prop :=
  ∀ p q x y, change p = some x → change q = some y → p <+: q → p = q

variable {change : Change} {x y : Val} {p : Path}

theorem whole_eq_some_iff : whole x p = some y ↔ p = [] ∧ x = y := by
  unfold whole
  split
  · rename_i h
    simp [h]
  · rename_i h
    simp [h]

theorem isApart_none : none.IsApart := nofun

theorem isApart_whole : (whole x).IsApart := by
  intro p q y z hp hq _
  rw [(whole_eq_some_iff.1 hp).1, (whole_eq_some_iff.1 hq).1]

/-- Changes are apart if they are inside every child, and a change of the whole is the only one. -/
theorem isApart_of_below (hbelow : ∀ k, (change.below k).IsApart)
    (hwhole : ∀ x, change [] = some x → ∀ k, change.below k = none) : change.IsApart := by
  intro p q x y hp hq hpq
  cases p with
  | nil =>
    cases q with
    | nil => rfl
    | cons k q => exact nomatch (congrFun (hwhole x hp k) q).symm.trans hq
  | cons k p =>
    obtain ⟨q, rfl⟩ := hpq
    exact congrArg (k :: ·) (hbelow k p (p ++ q) x y hp hq (List.prefix_append p q))

end Change

namespace Val

/-- A value that may be absent. -/
def ofJson? : Option Json → Val
  | some j => .defined j
  | none => .undefined

end Val

namespace Json

/-- What stands where `j` would stand if it were not changed itself. -/
def placed (change : Option Val) (j : Json) : Option Json :=
  match change with
  | some x => x.json?
  | none => some j

mutual
/-- The value with the changed parts in place. A part that is left without a value is removed from
its container; all others keep their order. -/
def update (change : Change) : Json → Option Json
  | .array items => placed (change []) (.array (updateItems change 0 items))
  | .object fields => placed (change []) (.object (updateFields change fields))
  | .null => placed (change []) .null
  | .bool b => placed (change []) (.bool b)
  | .number n => placed (change []) (.number n)
  | .string s => placed (change []) (.string s)

def updateItems (change : Change) (i : Nat) : List Json → List Json
  | [] => []
  | j :: js => (j.update (change.below (.element i))).toList ++ updateItems change (i + 1) js

def updateFields (change : Change) : List (String × Json) → List (String × Json)
  | [] => []
  | (k, j) :: rest =>
    ((j.update (change.below (.field k))).map (k, ·)).toList ++ updateFields change rest
end

mutual
/-- The values that are put in place, in document order. -/
def changed (change : Change) : Json → List Val
  | .array items =>
    match change [] with
    | some x => [x]
    | none => changedItems change 0 items
  | .object fields =>
    match change [] with
    | some x => [x]
    | none => changedFields change fields
  | .null | .bool _ | .number _ | .string _ => (change []).toList

def changedItems (change : Change) (i : Nat) : List Json → List Val
  | [] => []
  | j :: js => j.changed (change.below (.element i)) ++ changedItems change (i + 1) js

def changedFields (change : Change) : List (String × Json) → List Val
  | [] => []
  | (k, j) :: rest => j.changed (change.below (.field k)) ++ changedFields change rest
end

mutual
/-- The changed parts collected into their containers, one container after the other. -/
def revise (change : Change) : Json → Val
  | .array items => (change []).getD (.arrayOf (reviseItems change 0 items))
  | .object fields => (change []).getD (.objectOf (reviseFields change fields))
  | .null => (change []).getD (.defined .null)
  | .bool b => (change []).getD (.defined (.bool b))
  | .number n => (change []).getD (.defined (.number n))
  | .string s => (change []).getD (.defined (.string s))

def reviseItems (change : Change) (i : Nat) : List Json → List Val
  | [] => []
  | j :: js => j.revise (change.below (.element i)) :: reviseItems change (i + 1) js

def reviseFields (change : Change) : List (String × Json) → List (String × Val)
  | [] => []
  | (k, j) :: rest => (k, j.revise (change.below (.field k))) :: reviseFields change rest
end

end Json

/-! ## Collecting -/

namespace Val

theorem find?_orFirstError {operands : List Val} {o : Option Json} :
    [orFirstError operands (ofJson? o)].find? isError = operands.find? isError := by
  unfold orFirstError
  cases ho : operands.find? isError with
  | some failure => exact List.find?_singleton .. |>.trans (if_pos (List.find?_some ho))
  | none => cases o <;> rfl

theorem orFirstError_of_none {operands : List Val} (h : operands.find? isError = none) (x : Val) :
    orFirstError operands x = x := by rw [orFirstError, h]

theorem json?_ofJson? (o : Option Json) : (ofJson? o).json? = o := by cases o <;> rfl

end Val

namespace Json

theorem keys_updateFields_sublist (change : Change) (fields : List (String × Json)) :
    (Entries.keys (updateFields change fields)).Sublist (Entries.keys fields) := by
  induction fields with
  | nil => exact .slnil
  | cons f rest ih =>
    obtain ⟨k, j⟩ := f
    rw [updateFields]
    cases j.update (change.below (.field k)) with
    | none => exact ih.cons k
    | some w => exact ih.cons_cons k

mutual
/-- The first error among the values that are put in place, or the updated value. -/
theorem revise_eq (change : Change) (v : Json) (h : v.HasDistinctKeys) :
    v.revise change = .orFirstError (v.changed change) (.ofJson? (v.update change)) := by
  cases v with
  | array items =>
    rw [revise, changed, update]
    cases change [] with
    | some x => cases x <;> rfl
    | none =>
      obtain ⟨herror, hitems⟩ := reviseItems_eq change 0 items h
      rw [Option.getD_none, Val.arrayOf, Val.orFirstError, Val.orFirstError, herror]
      cases hfind : (changedItems change 0 items).find? Val.isError with
      | some failure => rfl
      | none => rw [hitems hfind]; rfl
  | object fields =>
    rw [revise, changed, update]
    cases change [] with
    | some x => cases x <;> rfl
    | none =>
      obtain ⟨herror, hfields⟩ := reviseFields_eq change fields h.2
      -- the fields that are left still have distinct names, so none is put over another one
      rw [Option.getD_none, Val.objectOf, Val.orFirstError, Val.orFirstError, herror]
      cases hfind : (changedFields change fields).find? Val.isError with
      | some failure => rfl
      | none =>
        rw [hfields hfind,
          Entries.ofList_eq_self (h.1.sublist (keys_updateFields_sublist change fields))]
        rfl
  | null => rw [revise, changed, update]; rcases change [] with _ | (_ | _ | _) <;> rfl
  | bool b => rw [revise, changed, update]; rcases change [] with _ | (_ | _ | _) <;> rfl
  | number n => rw [revise, changed, update]; rcases change [] with _ | (_ | _ | _) <;> rfl
  | string s => rw [revise, changed, update]; rcases change [] with _ | (_ | _ | _) <;> rfl
termination_by structural v

theorem reviseItems_eq (change : Change) (i : Nat) (items : List Json)
    (h : ItemsHaveDistinctKeys items) :
    (reviseItems change i items).find? Val.isError =
        (changedItems change i items).find? Val.isError ∧
      ((changedItems change i items).find? Val.isError = none →
        (reviseItems change i items).filterMap Val.json? = updateItems change i items) := by
  cases items with
  | nil => exact ⟨rfl, fun _ => rfl⟩
  | cons j rest =>
    have hj := revise_eq (change.below (.element i)) j h.1
    obtain ⟨herror, hitems⟩ := reviseItems_eq change (i + 1) rest h.2
    rw [reviseItems, changedItems, updateItems, List.find?_append, ← List.singleton_append,
      List.find?_append, hj, Val.find?_orFirstError, herror]
    refine ⟨rfl, fun hnone => ?_⟩
    obtain ⟨hfirst, hrest⟩ := Option.or_eq_none_iff.1 hnone
    rw [Val.orFirstError_of_none hfirst, List.filterMap_append, hitems hrest,
      List.filterMap_cons, Val.json?_ofJson?]
    cases j.update (change.below (.element i)) <;> rfl
termination_by structural items

theorem reviseFields_eq (change : Change) (fields : List (String × Json))
    (h : FieldsHaveDistinctKeys fields) :
    ((reviseFields change fields).map (·.2)).find? Val.isError =
        (changedFields change fields).find? Val.isError ∧
      ((changedFields change fields).find? Val.isError = none →
        ((reviseFields change fields).filterMap fun f => f.2.json?.map (f.1, ·)) =
          updateFields change fields) := by
  cases fields with
  | nil => exact ⟨rfl, fun _ => rfl⟩
  | cons f rest =>
    obtain ⟨k, j⟩ := f
    have hj := revise_eq (change.below (.field k)) j h.1
    obtain ⟨herror, hfields⟩ := reviseFields_eq change rest h.2
    rw [reviseFields, changedFields, updateFields, List.find?_append, List.map_cons,
      ← List.singleton_append, List.find?_append, hj, Val.find?_orFirstError, herror]
    refine ⟨rfl, fun hnone => ?_⟩
    obtain ⟨hfirst, hrest⟩ := Option.or_eq_none_iff.1 hnone
    rw [Val.orFirstError_of_none hfirst, List.filterMap_cons, hfields hrest,
      Val.json?_ofJson?]
    cases j.update (change.below (.field k)) <;> rfl
termination_by structural fields
end

/-! ## Containers -/

theorem reviseItems_eq_mapIdx (change : Change) (i : Nat) (items : List Json) :
    reviseItems change i items =
      items.mapIdx fun n j => j.revise (change.below (.element (i + n))) := by
  induction items generalizing i with
  | nil => rfl
  | cons j rest ih =>
    rw [reviseItems, List.mapIdx_cons, ih (i + 1)]
    simp only [Nat.add_zero, Nat.add_comm 1, Nat.add_assoc]

theorem reviseFields_eq_map (change : Change) (fields : List (String × Json)) :
    reviseFields change fields =
      fields.map fun f => (f.1, f.2.revise (change.below (.field f.1))) := by
  induction fields with
  | nil => rfl
  | cons f rest ih => rw [reviseFields, ih, List.map_cons]

theorem revise_whole (x : Val) (v : Json) : v.revise (.whole x) = x := by
  cases v <;> rfl

theorem arrayOf_defined (items : List Json) :
    Val.arrayOf (items.map .defined) = .defined (.array items) := by
  have hnone : (items.map Val.defined).find? Val.isError = none :=
    List.find?_eq_none.2 fun x hx => by
      obtain ⟨j, _, rfl⟩ := List.mem_map.1 hx
      simp [Val.isError]
  rw [Val.arrayOf, Val.orFirstError_of_none hnone, List.filterMap_map]
  exact congrArg _ (congrArg _ (List.filterMap_some ..))

theorem objectOf_defined {fields : List (String × Json)} (h : (Entries.keys fields).Nodup) :
    Val.objectOf (fields.map fun f => (f.1, .defined f.2)) = .defined (.object fields) := by
  have hnone : ((fields.map fun f => (f.1, Val.defined f.2)).map (·.2)).find? Val.isError =
      none :=
    List.find?_eq_none.2 fun x hx => by
      simp only [List.map_map, List.mem_map] at hx
      obtain ⟨f, _, rfl⟩ := hx
      simp [Val.isError]
  rw [Val.objectOf, Val.orFirstError_of_none hnone, List.filterMap_map]
  refine congrArg (fun l => Val.defined (.object l)) ?_
  exact (congrArg _ (List.filterMap_some ..)).trans (Entries.ofList_eq_self h)

/-- Elements that agree one by one make the same array. -/
theorem mapIdx_congr {items : List Json} {f g : Nat → Json → Val}
    (h : ∀ n j, items[n]? = some j → f n j = g n j) : items.mapIdx f = items.mapIdx g := by
  refine List.ext_getElem (by simp) fun n h₁ _ => ?_
  rw [List.getElem_mapIdx, List.getElem_mapIdx]
  exact h n _ (List.getElem?_eq_getElem (by simpa using h₁))

theorem mapIdx_eq_map (f : Json → Val) (items : List Json) :
    items.mapIdx (fun _ j => f j) = items.map f :=
  List.ext_getElem (by simp) fun _ _ _ => by simp

theorem revise_none {v : Json} (h : v.HasDistinctKeys) : v.revise .none = .defined v := by
  induction v using child_induction with
  | h v ih =>
    cases v with
    | array items =>
      have hitems : reviseItems .none 0 items = items.map .defined := by
        rw [reviseItems_eq_mapIdx, ← mapIdx_eq_map]
        exact mapIdx_congr fun n j hj =>
          ih (.element n) j hj (h.child (k := .element n) hj)
      exact (congrArg Val.arrayOf hitems).trans (arrayOf_defined items)
    | object fields =>
      have hfields : reviseFields .none fields = fields.map fun f => (f.1, .defined f.2) := by
        rw [reviseFields_eq_map]
        refine List.map_congr_left fun f hf => congrArg (Prod.mk f.1) ?_
        have hf := Entries.lookup_of_mem h.1 hf
        exact ih (.field f.1) f.2 hf (h.child (k := .field f.1) hf)
      exact (congrArg Val.objectOf hfields).trans (objectOf_defined h.1)
    | null => rfl
    | bool b => rfl
    | number n => rfl
    | string s => rfl

end Json
end PolicyDecision
