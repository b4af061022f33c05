import Mathlib.Data.List.Basic
import PolicyDecision.Proofs.Evaluation.PathUpdate

/-!
# PolicyDecision.Proofs.Evaluation.Redaction

What a path selects of a value that was filtered by the same path.

Selecting and filtering walk along a path each in its own way. What a filter has replaced or removed
must not come back when the same path selects it later.

* `Step.denote_replace`: a step selects the constant wherever a filter has put it by the same step.
* `Json.deleteKey`: a value without the fields of a name; `Json.at?_deleteKey`: what is left of its
  positions.
* `Json.replaceKey_undefined`: removing what a recursive step selects deletes these fields.
* `Expression.filtered_redacts`: no selected value is left after a filter.
-/

namespace PolicyDecision

/-! ## Replacing by a constant -/

/-- The steps that look only at the children of a container, and do not evaluate anything. -/
def Step.isPlain : Step → Bool
  | .key _ | .index _ | .wildcard | .slice _ _ _ => true
  | .recursiveKey _ | .recursiveIndex _ | .condition _ | .attributeFinder _ _ _ => false

/-- What a step gives, with a constant for each value that it selects: a key or an index selects one
value, the other steps collect theirs in an array. -/
def Step.redact (c : Json) : Step → Val → Val
  | .key _, .defined _ | .index _, .defined _ => .defined c
  | _, .defined (.array items) => .defined (.array (items.map fun _ => c))
  | _, v => v

section

variable {c : Json} {s s' : Scope}

namespace Json

theorem replaceElements_constant (c : Json) (items : List Json) (selected : Nat → Bool) :
    replaceElements items selected (fun _ => .defined c) =
      .defined (.array (items.mapIdx fun i j => if selected i then c else j)) := by
  rw [replaceElements, ← arrayOf_defined]
  refine congrArg Val.arrayOf (List.ext_getElem (by simp) fun i _ _ => ?_)
  rw [List.getElem_map, List.getElem_mapIdx, List.getElem_mapIdx]
  split <;> rfl

theorem replaceFields_constant (c : Json) {fields : List (String × Json)}
    (hkeys : (Entries.keys fields).Nodup) (selected : String → Bool) :
    replaceFields fields selected (fun _ => .defined c) =
      .defined (.object (fields.map fun f => (f.1, if selected f.1 then c else f.2))) := by
  have hsame : Entries.keys (fields.map fun f => (f.1, if selected f.1 then c else f.2)) =
      Entries.keys fields := by
    simp [Entries.keys, Function.comp_def]
  rw [replaceFields, ← objectOf_defined (hsame ▸ hkeys), List.map_map]
  refine congrArg Val.objectOf (List.map_congr_left fun f _ => congrArg (Prod.mk f.1) ?_)
  dsimp only
  split <;> rfl

theorem lookup_map_constant (c : Json) (name : String) (fields : List (String × Json)) :
    (fields.map fun f => (f.1, if f.1 == name then c else f.2)).lookup name =
      (fields.lookup name).map fun _ => c := by
  induction fields with
  | nil => rfl
  | cons f rest ih =>
    obtain ⟨k, j⟩ := f
    rw [List.map_cons, List.lookup_cons, List.lookup_cons]
    by_cases hk : name = k
    · simp [hk]
    · have hne : (name == k) = false := by simpa using hk
      simpa only [hne] using ih

/-- Every selected element is the constant. -/
theorem getElem?_mapIdx_constant (c : Json) {items : List Json} {selected : Nat → Bool} {i : Nat}
    (h : selected i = true) :
    (items.mapIdx fun i j => if selected i then c else j)[i]? = items[i]?.map fun _ => c := by
  rw [List.getElem?_mapIdx]
  simp [h]

end Json

namespace Step

theorem denote_replace_key (name : String) (v : Json) (hkeys : v.HasDistinctKeys) :
    (key name).denote ((key name).replace (fun _ _ => .defined c) (.defined v) s) s' =
      (key name).redact c ((key name).denote (.defined v) s') := by
  cases v with
  | object fields =>
    have hreplace : (key name).replace (fun _ _ => .defined c) (.defined (.object fields)) s = _ :=
      Json.replaceFields_constant c hkeys.1 (· == name)
    rw [hreplace]
    have hlookup := Json.lookup_map_constant c name fields
    show ((List.lookup name _).map Val.defined).getD .undefined = _
    rw [hlookup]
    show _ = (key name).redact c (((fields.lookup name).map Val.defined).getD .undefined)
    cases fields.lookup name <;> rfl
  | _ => rfl

theorem denote_replace_index (n : Int64) (v : Json) :
    (index n).denote ((index n).replace (fun _ _ => .defined c) (.defined v) s) s' =
      (index n).redact c ((index n).denote (.defined v) s') := by
  cases v with
  | array items =>
    have hreplace : (index n).replace (fun _ _ => .defined c) (.defined (.array items)) s = _ :=
      Json.replaceElements_constant c items (some · == normalizeIndex n.toInt items.length)
    rw [hreplace]
    show ((elementAt n.toInt _).map Val.defined).getD .undefined =
      (index n).redact c (((elementAt n.toInt items).map Val.defined).getD .undefined)
    rw [elementAt, elementAt, List.length_mapIdx]
    cases hindex : normalizeIndex n.toInt items.length with
    | none => rfl
    | some i =>
      rw [Option.bind_some, Option.bind_some, Json.getElem?_mapIdx_constant c (by simp)]
      cases items[i]? <;> rfl
  | _ => rfl

theorem denote_replace_wildcard (v : Json) (hkeys : v.HasDistinctKeys) :
    wildcard.denote (wildcard.replace (fun _ _ => .defined c) (.defined v) s) s' =
      wildcard.redact c (wildcard.denote (.defined v) s') := by
  cases v with
  | array items =>
    have hreplace : wildcard.replace (fun _ _ => .defined c) (.defined (.array items)) s = _ :=
      Json.replaceElements_constant c items fun _ => true
    rw [hreplace]
    have hall : (items.mapIdx fun _ _ => c) = items.map fun _ => c :=
      List.ext_getElem (by simp) fun _ _ _ => by simp
    exact congrArg (fun l => Val.defined (.array l)) hall
  | object fields =>
    have hreplace : wildcard.replace (fun _ _ => .defined c) (.defined (.object fields)) s = _ :=
      Json.replaceFields_constant c hkeys.1 fun _ => true
    rw [hreplace]
    refine congrArg (fun l => Val.defined (.array l)) ?_
    simp [childrenOf]
  | _ => rfl

theorem denote_slice {start stop stride : Option Int64} {items : List Json} {indices : List Nat}
    (h : sliceIndices items.length (start.map (·.toInt)) (stop.map (·.toInt))
      (stride.map (·.toInt)) = .ok indices) :
    (slice start stop stride).denote (.defined (.array items)) s =
      .defined (.array (indices.filterMap (items[·]?))) := by
  rw [Step.denote]
  · simp only [Val.items?, Val.json?, Option.bind_some, Json.items?, h]
  · simp

/-- A stride of zero is refused by the selection as by the filter. -/
theorem denote_slice_of_error {start stop stride : Option Int64} {items : List Json} {fault : Fault}
    (h : sliceIndices items.length (start.map (·.toInt)) (stop.map (·.toInt))
      (stride.map (·.toInt)) = .error fault) :
    (slice start stop stride).denote (.defined (.array items)) s = .fault fault := by
  rw [Step.denote]
  · simp only [Val.items?, Val.json?, Option.bind_some, Json.items?, h]
  · simp

theorem denote_replace_slice (start stop stride : Option Int64) (v : Json) :
    (slice start stop stride).denote
        ((slice start stop stride).replace (fun _ _ => .defined c) (.defined v) s) s' =
      (slice start stop stride).redact c ((slice start stop stride).denote (.defined v) s') := by
  cases v with
  | array items =>
    cases hindices : sliceIndices items.length (start.map (·.toInt)) (stop.map (·.toInt))
        (stride.map (·.toInt)) with
    | error fault =>
      have hrefusal : (slice start stop stride).refusal? (.array items) = some (.fault fault) := by
        rw [refusal?, hindices]
      rw [replace_of_refusal? hrefusal, denote_slice_of_error hindices]
      rfl
    | ok indices =>
      have hreplace : (slice start stop stride).replace (fun _ _ => .defined c)
          (.defined (.array items)) s =
            .defined (.array (items.mapIdx fun i j => if indices.contains i then c else j)) := by
        simp only [Step.replace, Val.items?, Val.json?, Option.bind_some, Json.items?, hindices]
        exact Json.replaceElements_constant c items indices.contains
      have hselected (i : Nat) (hi : i ∈ indices) :
          (items.mapIdx fun i j => if indices.contains i then c else j)[i]? =
            items[i]?.map fun _ => c :=
        Json.getElem?_mapIdx_constant c (List.contains_iff_mem.2 hi)
      rw [hreplace, denote_slice hindices, denote_slice (by rwa [List.length_mapIdx]),
        List.filterMap_congr hselected, ← List.map_filterMap]
      rfl
  | _ => rfl

/-- A step selects the constant wherever a filter has put it by the same step. -/
theorem denote_replace {step : Step} (h : step.isPlain = true) (v : Json)
    (hkeys : v.HasDistinctKeys) :
    step.denote (step.replace (fun _ _ => .defined c) (.defined v) s) s' =
      step.redact c (step.denote (.defined v) s') := by
  cases step with
  | key name => exact denote_replace_key name v hkeys
  | index n => exact denote_replace_index n v
  | wildcard => exact denote_replace_wildcard v hkeys
  | slice start stop stride => exact denote_replace_slice start stop stride v
  | _ => cases h

end Step

end

/-! ## Deleting fields -/

namespace Json

mutual
/-- The value without the fields of a name, at every depth. -/
def deleteKey (key : String) : Json → Json
  | .object fields => .object (deleteKeyFields key fields)
  | .array items => .array (deleteKeyItems key items)
  | .null => .null
  | .bool b => .bool b
  | .number n => .number n
  | .string s => .string s

def deleteKeyFields (key : String) : List (String × Json) → List (String × Json)
  | [] => []
  | (k, j) :: rest =>
    if k = key then deleteKeyFields key rest
    else (k, j.deleteKey key) :: deleteKeyFields key rest

def deleteKeyItems (key : String) : List Json → List Json
  | [] => []
  | j :: js => j.deleteKey key :: deleteKeyItems key js
end

theorem deleteKeyItems_eq_map (key : String) (items : List Json) :
    deleteKeyItems key items = items.map (·.deleteKey key) := by
  induction items with
  | nil => rfl
  | cons j rest ih => rw [deleteKeyItems, ih, List.map_cons]

theorem deleteKeyFields_eq_filterMap (key : String) (fields : List (String × Json)) :
    deleteKeyFields key fields =
      fields.filterMap fun f =>
        (if f.1 = key then none else some (f.2.deleteKey key)).map (f.1, ·) := by
  induction fields with
  | nil => rfl
  | cons f rest ih =>
    obtain ⟨k, j⟩ := f
    rw [deleteKeyFields, List.filterMap_cons, ih]
    by_cases hk : k = key <;> simp [hk]

theorem lookup_deleteKeyFields (key name : String) (fields : List (String × Json)) :
    (deleteKeyFields key fields).lookup name =
      if name = key then none else (fields.lookup name).map (·.deleteKey key) := by
  induction fields with
  | nil => simp [deleteKeyFields]
  | cons f rest ih =>
    obtain ⟨k, j⟩ := f
    rw [deleteKeyFields, List.lookup_cons]
    by_cases hname : name = k
    · subst hname
      by_cases hk : name = key
      · rw [if_pos hk, ih, if_pos hk, if_pos hk]
      · simp [hk]
    · have hne : (name == k) = false := by simpa using hname
      simp only [hne]
      split
      · exact ih
      · simpa only [List.lookup_cons, hne] using ih

/-- The positions that are left are those that no field of the name lies on the way to. -/
theorem at?_deleteKey (v : Json) (key : String) (p : Path) :
    (v.deleteKey key).at? p =
      if .field key ∈ p then none else (v.at? p).map (·.deleteKey key) := by
  induction p generalizing v with
  | nil => rfl
  | cons k p ih =>
    have hchild : (v.deleteKey key).child? k =
        if k = .field key then none else (v.child? k).map (·.deleteKey key) := by
      cases v with
      | object fields =>
        cases k with
        | field name => simpa [deleteKey, child?] using lookup_deleteKeyFields key name fields
        | element i => rfl
      | array items =>
        cases k with
        | field name => simp [deleteKey, child?]
        | element i => simp [deleteKey, child?, deleteKeyItems_eq_map]
      | _ => cases k <;> simp [deleteKey, child?]
    rw [at?, hchild]
    by_cases hk : k = .field key
    · simp [hk]
    · rw [if_neg hk, at?]
      cases v.child? k with
      | none => simp
      | some w => simp [ih w, Ne.symm hk]

theorem keys_filterMap_sublist (g : String × Json → Option Json) (fields : List (String × Json)) :
    (Entries.keys (fields.filterMap fun f => (g f).map (f.1, ·))).Sublist
      (Entries.keys fields) := by
  induction fields with
  | nil => exact .slnil
  | cons f rest ih =>
    rw [List.filterMap_cons]
    cases g f with
    | none => exact ih.cons f.1
    | some j => exact ih.cons_cons f.1

/-- The fields that have a value are collected under their names. -/
theorem objectOf_ofJson? {fields : List (String × Json)} (h : (Entries.keys fields).Nodup)
    (g : String × Json → Option Json) :
    Val.objectOf (fields.map fun f => (f.1, .ofJson? (g f))) =
      .defined (.object (fields.filterMap fun f => (g f).map (f.1, ·))) := by
  have hnone : ((fields.map fun f => (f.1, Val.ofJson? (g f))).map (·.2)).find? Val.isError =
      none := by
    refine List.find?_eq_none.2 fun x hx => ?_
    simp only [List.map_map, List.mem_map] at hx
    obtain ⟨f, _, rfl⟩ := hx
    dsimp only [Function.comp_apply]
    cases g f <;> simp [Val.ofJson?, Val.isError]
  rw [Val.objectOf, Val.orFirstError_of_none hnone, List.filterMap_map]
  simp only [Function.comp_def, Val.json?_ofJson?]
  rw [Entries.ofList_eq_self (h.sublist (keys_filterMap_sublist g fields))]

/-- Removing what a recursive step selects deletes the fields of its name. -/
theorem replaceKey_undefined (key : String) (v : Json) (h : v.HasDistinctKeys) :
    v.replaceKey key (fun _ _ => .undefined) = .defined (v.deleteKey key) := by
  induction v using child_induction with
  | h v ih =>
    cases v with
    | object fields =>
      have hfields (f : String × Json) (hf : f ∈ fields) :
          f.2.replaceKey key (fun _ _ => .undefined) = .defined (f.2.deleteKey key) := by
        have hf := Entries.lookup_of_mem h.1 hf
        exact ih (.field f.1) f.2 hf (h.child (k := .field f.1) hf)
      rw [replaceKey, replaceKeyFields_eq_map, deleteKey, deleteKeyFields_eq_filterMap,
        ← objectOf_ofJson? h.1]
      refine congrArg Val.objectOf (List.map_congr_left fun f hf => congrArg (Prod.mk f.1) ?_)
      rw [hfields f hf]
      split <;> rfl
    | array items =>
      have hitems (j : Json) (hj : j ∈ items) :
          j.replaceKey key (fun _ _ => .undefined) = .defined (j.deleteKey key) := by
        obtain ⟨i, hi⟩ := List.getElem?_of_mem hj
        exact ih (.element i) j hi (h.child (k := .element i) hi)
      rw [replaceKey, replaceKeyItems_eq_map, List.map_congr_left hitems, deleteKey,
        deleteKeyItems_eq_map, ← arrayOf_defined, List.map_map]
      rfl
    | null => rfl
    | bool b => rfl
    | number n => rfl
    | string s => rfl

mutual
/-- No field of the name is left. -/
theorem recursiveKey_deleteKey (key : String) (v : Json) :
    recursiveKey key (v.deleteKey key) = [] := by
  cases v with
  | object fields =>
    rw [deleteKey, recursiveKey, lookup_deleteKeyFields, if_pos rfl,
      recursiveKeyFields_deleteKey key fields]
    rfl
  | array items =>
    rw [deleteKey, recursiveKey, recursiveKeyItems_deleteKey key items]
  | null => rfl
  | bool b => rfl
  | number n => rfl
  | string s => rfl
termination_by structural v

theorem recursiveKeyFields_deleteKey (key : String) (fields : List (String × Json)) :
    recursiveKeyFields key (deleteKeyFields key fields) = [] := by
  cases fields with
  | nil => rfl
  | cons f rest =>
    obtain ⟨k, j⟩ := f
    rw [deleteKeyFields]
    split
    · exact recursiveKeyFields_deleteKey key rest
    · rw [recursiveKeyFields, recursiveKey_deleteKey key j, recursiveKeyFields_deleteKey key rest]
      rfl
termination_by structural fields

theorem recursiveKeyItems_deleteKey (key : String) (items : List Json) :
    recursiveKeyItems key (deleteKeyItems key items) = [] := by
  cases items with
  | nil => rfl
  | cons j rest =>
    rw [deleteKeyItems, recursiveKeyItems, recursiveKey_deleteKey key j,
      recursiveKeyItems_deleteKey key rest]
    rfl
termination_by structural items
end

end Json

/-! ## Filters -/

/-- The function that a name stands for in a context. -/
def Context.Provides (ctx : Context) (name : String) (function : Function) : Prop :=
  ctx.functions.functions.get? (ctx.resolve name) = some function

/-- A value, filtered by a statement that goes one step and has constants as arguments; and what
some steps select of the result. -/
def Expression.filtered (v : Json) (target : Step) (function : String) (arguments : List Json)
    (steps : List Step) : Expression :=
  .basic (.group (.basic (.value v) [] (some (.filter (.extended [
    .mk [target] function (arguments.map fun j => .basic (.value j) [] none) false]))))) steps none

section

variable {ctx : Context} {function : Function} {name : String}

theorem Context.Provides.result (h : ctx.Provides name function) :
    ctx.scope.result name = function := by
  funext arguments
  show ctx.functions.result (ctx.resolve name) arguments = _
  rw [FunctionLibrary.result, h]

namespace Expression

variable {target : Step} {steps : List Step} {arguments : List Json}

theorem denoteAll_values (values : List Json) (s : Scope) :
    denoteAll (values.map fun j => .basic (.value j) [] none) s = values.map .defined := by
  induction values with
  | nil => rfl
  | cons j rest ih => rw [List.map_cons, denoteAll, ih]; rfl

theorem anyContains_values (values : List Json) :
    anyContains (values.map fun j => .basic (.value j) [] none) = false := by
  induction values with
  | nil => rfl
  | cons j rest ih => rw [List.map_cons, anyContains, ih]; rfl

/-- The steps select from the value in which the target is replaced. -/
theorem filtered_isSingle (h : ctx.Provides name function) (v : Json)
    (htarget : stepContains target = false) (hsteps : stepsContain steps = false) (now : Snapshot)
    (place : Place) :
    ((filtered v target name arguments steps).evaluate ctx now place).IsSingle
      (denoteSteps steps
        (target.replace
          (fun j _ => (Val.defined j).filtered function (arguments.map .defined) false)
          (.defined v) (ctx.scope.withNode (.defined v))) ctx.scope) := by
  have hpermits : ctx.Permits (filtered v target name arguments steps).containsFinder := by
    refine .inr ?_
    simp [filtered, containsFinder, headContains, tailContains, filterContains, statementsContain,
      stepsContain, anyContains_values, htarget, hsteps]
  have hvalue : (filtered v target name arguments steps).denote ctx.scope =
      denoteSteps steps
        (target.replace (fun j _ => (Val.defined j).filtered (ctx.scope.result name)
          (denoteAll (arguments.map fun j => .basic (.value j) [] none) _) false)
          (.defined v) (ctx.scope.withNode (.defined v))) ctx.scope := rfl
  rw [evaluate_eq_just _ hpermits, hvalue]
  simp only [denoteAll_values, h.result]
  exact Flow.isSingle_just _

/-- Selecting what a filter has replaced, by the same step as the filter, gives the constant in the
place of each value that the step selects in the value itself. A filter that removes the fields of a
name deletes them at every depth, and none is left to be selected; at the other positions everything
stays, apart from such fields inside of it. -/
theorem filtered_redacts (ctx : Context) (v : Json) (hkeys : v.HasDistinctKeys) :
    (∀ name, ctx.Provides name Function.replace → ∀ step : Step, step.isPlain = true →
      ∀ c : Json, ∃ x, ∀ now place,
        ((basic (.value v) [step] none).evaluate ctx now place).IsSingle x ∧
        ((filtered v step name [c] [step]).evaluate ctx now place).IsSingle (step.redact c x)) ∧
    (∀ name, ctx.Provides name Function.remove → ∀ (key : String) now place,
      ((filtered v (.recursiveKey key) name [] []).evaluate ctx now place).IsSingle
        (.defined (v.deleteKey key)) ∧
      ((filtered v (.recursiveKey key) name [] [.recursiveKey key]).evaluate ctx now
        place).IsSingle .emptyArray) ∧
    ∀ (key : String) (p : Path), (v.deleteKey key).at? p =
      if .field key ∈ p then none else (v.at? p).map (·.deleteKey key) := by
  refine ⟨fun name hname step hplain c => ⟨step.denote (.defined v) ctx.scope, fun now place => ?_⟩,
    fun name hname key now place => ?_, fun key p => v.at?_deleteKey key p⟩
  · have hfinder : stepContains step = false := by
      cases step <;> first | rfl | cases hplain
    constructor
    · have hpermits : ctx.Permits (basic (.value v) [step] none).containsFinder :=
        .inr (by simp [containsFinder, headContains, tailContains, stepsContain, hfinder])
      rw [evaluate_eq_just _ hpermits]
      exact Flow.isSingle_just _
    · rw [← Step.denote_replace hplain v hkeys]
      exact filtered_isSingle hname v hfinder (by simp [stepsContain, hfinder]) now place
  · have hdeleted : (Step.recursiveKey key).replace
        (fun j _ => (Val.defined j).filtered Function.remove [] false) (.defined v)
          (ctx.scope.withNode (.defined v)) = .defined (v.deleteKey key) :=
      Json.replaceKey_undefined key v hkeys
    constructor
    · rw [← hdeleted]
      exact filtered_isSingle hname v rfl rfl now place
    · have hnone : (Step.recursiveKey key).denote (.defined (v.deleteKey key)) ctx.scope =
          .emptyArray :=
        congrArg (fun l => Val.defined (.array l)) (Json.recursiveKey_deleteKey key v)
      rw [← hnone, ← hdeleted]
      exact filtered_isSingle hname v rfl rfl now place

/-- A badge inside of a badge, and one in a log. -/
def badges : Json :=
  .object [("badge", .object [("badge", .string "12"), ("room", .string "lab")]),
    ("log", .array [.object [("badge", .string "34"), ("door", .string "west")], .bool true])]

/-- All fields are masked, or the badges are removed. -/
theorem filtered_redacts_badges :
    (badges.HasDistinctKeys ∧ Context.standard.Provides "filter.replace" Function.replace ∧
      Context.standard.Provides "filter.remove" Function.remove) ∧
    ∀ now place,
      ((filtered badges .wildcard "filter.replace" [.string "X"] [.wildcard]).evaluate .standard now
        place).IsSingle (.defined (.array [.string "X", .string "X"])) ∧
      ((filtered badges (.recursiveKey "badge") "filter.remove" [] []).evaluate .standard now
        place).IsSingle
          (.defined (.object [("log", .array [.object [("door", .string "west")], .bool true])])) ∧
      ((filtered badges (.recursiveKey "badge") "filter.remove" [] [.recursiveKey "badge"]).evaluate
        .standard now place).IsSingle .emptyArray := by
  have hkeys : badges.HasDistinctKeys := by
    simp [badges, Json.HasDistinctKeys, Json.ItemsHaveDistinctKeys, Json.FieldsHaveDistinctKeys,
      Entries.keys]
  have hreplace : Context.standard.Provides "filter.replace" Function.replace := rfl
  have hremove : Context.standard.Provides "filter.remove" Function.remove := rfl
  obtain ⟨hreplaced, hremoved, -⟩ := filtered_redacts .standard badges hkeys
  refine ⟨⟨hkeys, hreplace, hremove⟩, fun now place => ⟨?_, hremoved _ hremove "badge" now place⟩⟩
  obtain ⟨x, hx⟩ := hreplaced _ hreplace .wildcard rfl (.string "X")
  obtain ⟨hselected, hmasked⟩ := hx now place
  have hx : [Val.defined (.array (childrenOf (.defined badges)))] = [x] := hselected.items
  obtain rfl := (List.cons.inj hx).1
  exact hmasked

end Expression

end

end PolicyDecision
