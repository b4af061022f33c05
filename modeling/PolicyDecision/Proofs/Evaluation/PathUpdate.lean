import PolicyDecision.Proofs.Evaluation.Selection
import PolicyDecision.Proofs.Evaluation.SingleValued

/-!
# PolicyDecision.Proofs.Evaluation.PathUpdate

Filter statements as updates of the positions that their targets select.

* `Step.change`, `targetChange`: what becomes of the positions in a value, by walking along a path.
* `targetChange_eq_some_iff`, `targetChange_isApart`: the selected positions change, and no other
  ones.
* `Step.replace_array`, `Step.replace_object`: what a step does with a container, child by child.
* `replaceTarget_eq_revise`: replacing what a target selects is collecting these changes.
* `FilterStatement.apply_updates`: a filter statement changes what its target selects, and nothing
  else.
-/

namespace PolicyDecision

/-! ## Changes of a target -/

/-- What a step makes of the positions in a value, given what becomes of the values that it selects
in their containers. -/
def Step.change (s : Scope) (step : Step) (cont : Json → Json → Change) : Json → Change
  | v, [] => step.refusal? v
  | v, k :: p =>
    match v.child? k with
    | none => none
    | some w =>
      match step.undecided? s w with
      | some x => Change.whole x p
      | none =>
        if step.picks s v k w then cont v w p
        else if step.isRecursive then step.change s cont w p
        else none

/-- What a target makes of the positions in a value. -/
def targetChange (s : Scope) (run : Val → Val → Val) : List Step → Json → Change
  | [], v => .whole (run (.defined v) (.defined v))
  | step :: rest, v =>
    step.change s
      (fun c w =>
        match rest with
        | [] => .whole (run (.defined w) (.defined c))
        | _ :: _ => targetChange s run rest w) v

section

variable {s : Scope} {step : Step} {cont : Json → Json → Change} {v w : Json} {k : Key} {p : Path}
  {x : Val}

namespace Step

theorem change_below_of_none (hchild : v.child? k = none) :
    (step.change s cont v).below k = .none := by
  funext p
  rw [Change.below, change, hchild]
  rfl

theorem change_below (hchild : v.child? k = some w) :
    (step.change s cont v).below k =
      match step.undecided? s w with
      | some x => .whole x
      | none =>
        if step.picks s v k w then cont v w
        else if step.isRecursive then step.change s cont w
        else .none := by
  funext p
  rw [Change.below, change, hchild]
  dsimp only
  cases step.undecided? s w with
  | some x => rfl
  | none =>
    dsimp only
    split
    · rfl
    · split
      · rfl
      · rfl

/-- What the positions below a child lead to is selected there, or by a recursive step inside. -/
theorem selects_append_cons_iff :
    (∃ p' q c w, k :: p = p' ++ q ∧ step.Selects s v p' c w ∧ cont c w q = some x) ↔
      ∃ u, v.child? k = some u ∧
        ((step.picks s v k u = true ∧ cont v u p = some x) ∨
          (step.picks s v k u = false ∧ step.isRecursive = true ∧
            ∃ p' q c w, p = p' ++ q ∧ step.Selects s u p' c w ∧ cont c w q = some x)) := by
  constructor
  · rintro ⟨p', q, c, w, hp, hsel, hx⟩
    cases p' with
    | nil => exact absurd hsel not_selects_nil
    | cons k' p' =>
      obtain ⟨rfl, rfl⟩ := List.cons.inj hp
      obtain ⟨rfl, rfl, hchild, hpicked⟩ | ⟨u, hchild, hrec, hpassed, hrest⟩ :=
        selects_cons_iff.1 hsel
      · exact ⟨w, hchild, .inl ⟨hpicked, hx⟩⟩
      · exact ⟨u, hchild, .inr ⟨hpassed, hrec, p', q, c, w, rfl, hrest, hx⟩⟩
  · rintro ⟨u, hchild, ⟨hpicked, hx⟩ | ⟨hpassed, hrec, p', q, c, w, rfl, hrest, hx⟩⟩
    · exact ⟨[k], p, v, u, rfl, .child hchild hpicked, hx⟩
    · exact ⟨k :: p', q, c, w, rfl, .inside hchild hrec hpassed hrest, hx⟩

/-- A step changes what lies at or inside of the positions that it selects, and gives its errors. -/
theorem change_eq_some_iff :
    step.change s cont v p = some x ↔
      (∃ p' q c w, p = p' ++ q ∧ step.Selects s v p' c w ∧ cont c w q = some x) ∨
      step.Fails s v p x := by
  induction p generalizing v with
  | nil =>
    rw [change, fails_nil_iff, or_iff_right]
    rintro ⟨p', q, c, w, hp, hsel, _⟩
    rw [(List.append_eq_nil_iff.1 hp.symm).1] at hsel
    exact not_selects_nil hsel
  | cons k p ih =>
    rw [selects_append_cons_iff, fails_cons_iff, change]
    cases hchild : v.child? k with
    | none => simp
    | some u =>
      simp only [Option.some.injEq, exists_eq_left']
      cases hund : step.undecided? s u with
      | some y =>
        -- the error stands in the place of the child, so nothing is selected at or inside of it
        have hpicks : step.picks s v k u = false :=
          Bool.eq_false_iff.2 fun h => by rw [undecided?_of_picks h] at hund; cases hund
        have hrec : step.isRecursive = false :=
          Bool.eq_false_iff.2 fun h => by rw [undecided?_of_isRecursive h] at hund; cases hund
        simp [hpicks, hrec, Change.whole_eq_some_iff]
      | none =>
        cases hpicks : step.picks s v k u with
        | true => simp
        | false =>
          cases hrec : step.isRecursive with
          | true => simp [ih, not_fails_of_isRecursive hrec]
          | false => simp

/-- No changed part lies inside of another one if none does inside the selected values. -/
theorem change_isApart (hcont : ∀ c w, (cont c w).IsApart) (v : Json) :
    (step.change s cont v).IsApart := by
  induction v using Json.child_induction with
  | h v ih =>
    refine Change.isApart_of_below (fun k => ?_) fun x hx k => ?_
    · cases hchild : v.child? k with
      | none =>
        rw [change_below_of_none hchild]
        exact Change.isApart_none
      | some u =>
        rw [change_below hchild]
        split
        · exact Change.isApart_whole
        · split
          · exact hcont v u
          · split
            · exact ih k u hchild
            · exact Change.isApart_none
    · cases hchild : v.child? k with
      | none => exact change_below_of_none hchild
      | some u =>
        rw [change] at hx
        obtain ⟨hrec, hundecided, hpicks⟩ := eq_none_of_refusal? hx
        rw [change_below hchild, hundecided, hpicks, hrec]
        rfl

end Step

end

/-! ## Steps, child by child -/

namespace Json

variable (replace : Replacement)

theorem replaceKeyItems_eq_map (key : String) (items : List Json) :
    replaceKeyItems key replace items = items.map (·.replaceKey key replace) := by
  induction items with
  | nil => rfl
  | cons j rest ih => rw [replaceKeyItems, ih, List.map_cons]

theorem replaceKeyFields_eq_map (key : String) (container : Val) (fields : List (String × Json)) :
    replaceKeyFields key replace container fields =
      fields.map fun f =>
        (f.1, if f.1 = key then replace f.2 container else f.2.replaceKey key replace) := by
  induction fields with
  | nil => rfl
  | cons f rest ih => rw [replaceKeyFields, ih, List.map_cons]

theorem replaceIndexFields_eq_map (index : Int) (fields : List (String × Json)) :
    replaceIndexFields index replace fields =
      fields.map fun f => (f.1, f.2.replaceIndex index replace) := by
  induction fields with
  | nil => rfl
  | cons f rest ih => rw [replaceIndexFields, ih, List.map_cons]

theorem replaceIndexItems_eq_mapIdx (index : Int) (container : Val) (chosen : Option Nat) (i : Nat)
    (items : List Json) :
    replaceIndexItems index replace container chosen i items =
      items.mapIdx fun n j =>
        if chosen = some (i + n) then replace j container else j.replaceIndex index replace := by
  induction items generalizing i with
  | nil => rfl
  | cons j rest ih =>
    rw [replaceIndexItems, List.mapIdx_cons, ih (i + 1)]
    simp only [Nat.add_zero, Nat.add_comm 1, Nat.add_assoc]

end Json

theorem Val.replacedIf_eq (result : Val) (j : Json) (replacement : Val) :
    replacedIf result j replacement =
      match result.undecided? with
      | some failure => failure
      | none => if result.bool? == some true then replacement else .defined j := by
  rcases result with (_ | (_ | _) | _ | _ | _ | _) | _ | _ <;> rfl

section

variable {s : Scope} {step : Step} {replace : Replacement} {x : Val}

/-- What a step makes of a child of a container. -/
def Step.replacement (s : Scope) (step : Step) (replace : Replacement) (v : Json) (k : Key)
    (w : Json) : Val :=
  match step.undecided? s w with
  | some x => x
  | none =>
    if step.picks s v k w then replace w (.defined v)
    else if step.isRecursive then step.replace replace (.defined w) s
    else .defined w

namespace Step

theorem replace_of_refusal? {v : Json} (h : step.refusal? v = some x) :
    step.replace replace (.defined v) s = x := by
  cases step with
  | slice start stop stride =>
    cases v with
    | array items =>
      rw [refusal?] at h
      cases hindices : sliceIndices items.length (start.map (·.toInt)) (stop.map (·.toInt))
          (stride.map (·.toInt)) with
      | ok indices => simp [hindices] at h
      | error fault =>
        simp only [hindices, Option.some.injEq] at h
        simp only [Step.replace, Val.items?, Val.json?, Option.bind_some, Json.items?, hindices]
        exact h
    | _ => cases h
  | _ => cases h

/-- An array is collected from what a step makes of its elements, unless it refuses the array. -/
theorem replace_array {items : List Json} (hfinder : Expression.stepContains step = false)
    (h : step.refusal? (.array items) = none) :
    step.replace replace (.defined (.array items)) s =
      .arrayOf (items.mapIdx fun n j =>
        step.replacement s replace (.array items) (.element n) j) := by
  cases step with
  | key name =>
    exact (Json.arrayOf_defined items).symm.trans
      (congrArg Val.arrayOf (Json.mapIdx_eq_map _ items).symm)
  | index n => rfl
  | wildcard => rfl
  | slice start stop stride =>
    rw [refusal?] at h
    cases hindices : sliceIndices items.length (start.map (·.toInt)) (stop.map (·.toInt))
        (stride.map (·.toInt)) with
    | error fault => simp [hindices] at h
    | ok indices =>
      simp only [Step.replace, Val.items?, Val.json?, Option.bind_some, Json.items?, hindices]
      refine congrArg Val.arrayOf (Json.mapIdx_congr fun n j _ => ?_)
      have hpicks : (slice start stop stride).picks s (.array items) (.element n) j =
          indices.contains n := by rw [picks, hindices]
      rw [replacement, hpicks]
      rfl
  | recursiveKey name =>
    refine congrArg Val.arrayOf ((Json.replaceKeyItems_eq_map replace name items).trans ?_)
    exact (Json.mapIdx_eq_map _ items).symm
  | recursiveIndex n =>
    refine congrArg Val.arrayOf
      ((Json.replaceIndexItems_eq_mapIdx replace n.toInt _ _ 0 items).trans ?_)
    refine Json.mapIdx_congr fun i j _ =>
      ite_congr (propext ?_) (fun _ => rfl) fun _ => rfl
    rw [Nat.zero_add, picks, beq_iff_eq, eq_comm]
  | condition e =>
    exact congrArg Val.arrayOf (Json.mapIdx_congr fun n j _ => Val.replacedIf_eq _ j _)
  | attributeFinder name arguments head => cases hfinder

/-- An object is collected from what a step makes of its fields. -/
theorem replace_object {fields : List (String × Json)}
    (hfinder : Expression.stepContains step = false) (hkeys : (Entries.keys fields).Nodup) :
    step.replace replace (.defined (.object fields)) s =
      .objectOf (fields.map fun f =>
        (f.1, step.replacement s replace (.object fields) (.field f.1) f.2)) := by
  have hkeep := (Json.objectOf_defined hkeys).symm
  cases step with
  | key name => rfl
  | index n => exact hkeep
  | wildcard => rfl
  | slice start stop stride => exact hkeep
  | recursiveKey name =>
    refine congrArg Val.objectOf ((Json.replaceKeyFields_eq_map replace name _ fields).trans ?_)
    refine List.map_congr_left fun f _ => congrArg (Prod.mk f.1) ?_
    simp [replacement, undecided?, picks, isRecursive, Step.replace]
  | recursiveIndex n => 
    exact congrArg Val.objectOf (Json.replaceIndexFields_eq_map replace n.toInt fields)
  | condition e =>
    refine congrArg Val.objectOf (List.map_congr_left fun f _ => congrArg (Prod.mk f.1) ?_)
    exact Val.replacedIf_eq _ f.2 _
  | attributeFinder name arguments head => cases hfinder

/-- A step revises a value by its changes if its replacements revise the selected values. -/
theorem replace_eq_revise {cont : Json → Json → Change}
    (hfinder : Expression.stepContains step = false)
    (hreplace : ∀ c w, w.HasDistinctKeys → replace w (.defined c) = w.revise (cont c w))
    (v : Json) (hv : v.HasDistinctKeys) :
    step.replace replace (.defined v) s = v.revise (step.change s cont v) := by
  induction v using Json.child_induction with
  | h v ih =>
    -- a child is revised as the step replaces it, whatever the kind of its container
    have hchild {k : Key} {w : Json} (hk : v.child? k = some w) :
        step.replacement s replace v k w = w.revise ((step.change s cont v).below k) := by
      have hw := hv.child hk
      rw [replacement, change_below hk]
      split
      · exact (Json.revise_whole _ w).symm
      · split
        · exact hreplace v w hw
        · split
          · exact ih k w hk hw
          · exact (Json.revise_none hw).symm
    cases v with
    | array items =>
      rw [Json.revise, change]
      cases hrefusal : step.refusal? (.array items) with
      | some x => exact replace_of_refusal? hrefusal
      | none =>
        rw [replace_array hfinder hrefusal, Option.getD_none, Json.reviseItems_eq_mapIdx]
        refine congrArg Val.arrayOf (Json.mapIdx_congr fun n j hj => ?_)
        rw [Nat.zero_add]
        exact hchild (k := .element n) hj
    | object fields =>
      have hrefusal : step.refusal? (.object fields) = none := by cases step <;> rfl
      rw [replace_object hfinder hv.1, Json.revise, change, hrefusal, Option.getD_none,
        Json.reviseFields_eq_map]
      refine congrArg Val.objectOf (List.map_congr_left fun f hf => congrArg (Prod.mk f.1) ?_)
      exact hchild (k := .field f.1) (Entries.lookup_of_mem hv.1 hf)
    | _ =>
      cases step with
      | attributeFinder name arguments head => cases hfinder
      | _ => rfl

end Step

/-- A target revises a value by its changes. -/
theorem replaceTarget_eq_revise (run : Val → Val → Val) (target : List Step)
    (hfinder : Expression.stepsContain target = false) (v : Json) (hv : v.HasDistinctKeys) :
    replaceTarget target run (.defined v) s = v.revise (targetChange s run target v) := by
  induction target generalizing v with
  | nil => exact (Json.revise_whole _ v).symm
  | cons step rest ih =>
    -- the last step hands its container on; any other one only the selected value
    obtain ⟨hstep, hrest⟩ := Bool.or_eq_false_iff.1 hfinder
    refine Step.replace_eq_revise hstep (fun c w hw => ?_) v hv
    cases rest with
    | nil => exact (Json.revise_whole _ w).symm
    | cons next rest => exact ih hrest w hw

/-- A target changes the positions that it selects, and gives its errors. -/
theorem targetChange_eq_some_iff {run : Val → Val → Val} {target : List Step} {v : Json}
    {p : Path} :
    targetChange s run target v p = some x ↔
      (∃ c w, TargetSelects s target v p c w ∧ x = run (.defined w) (.defined c)) ∨
      TargetFails s target v p x := by
  induction target generalizing v p with
  | nil =>
    simp only [targetChange, Change.whole_eq_some_iff, targetSelects_nil_iff,
      not_targetFails_nil, or_false]
    constructor
    · rintro ⟨hp, rfl⟩
      exact ⟨v, v, ⟨hp, rfl, rfl⟩, rfl⟩
    · rintro ⟨_, _, ⟨hp, rfl, rfl⟩, rfl⟩
      exact ⟨hp, rfl⟩
  | cons step rest ih =>
    rw [targetChange, Step.change_eq_some_iff, targetFails_cons_iff]
    cases rest with
    | nil =>
      simp only [Change.whole_eq_some_iff, targetSelects_singleton_iff, not_targetFails_nil]
      constructor
      · rintro (⟨p', q, c, w, rfl, hsel, rfl, rfl⟩ | hfails)
        · rw [List.append_nil]
          exact .inl ⟨c, w, hsel, rfl⟩
        · exact .inr (.inl hfails)
      · rintro (⟨c, w, hsel, rfl⟩ | hfails | ⟨_, _, _, _, _, _, hfalse⟩)
        · exact .inl ⟨p, [], c, w, (List.append_nil p).symm, hsel, rfl, rfl⟩
        · exact .inr hfails
        · exact hfalse.elim
    | cons next rest =>
      simp only [ih, targetSelects_cons_cons_iff]
      constructor
      · rintro (⟨p', q, c, u, rfl, hsel, ⟨d, w, hrest, rfl⟩ | hfails⟩ | hfails)
        · exact .inl ⟨d, w, ⟨p', q, c, u, rfl, hsel, hrest⟩, rfl⟩
        · exact .inr (.inr ⟨p', q, c, u, rfl, hsel, hfails⟩)
        · exact .inr (.inl hfails)
      · rintro (⟨d, w, ⟨p', q, c, u, rfl, hsel, hrest⟩, rfl⟩ | hfails |
          ⟨p', q, c, u, rfl, hsel, hfails⟩)
        · exact .inl ⟨p', q, c, u, rfl, hsel, .inl ⟨d, w, hrest, rfl⟩⟩
        · exact .inr hfails
        · exact .inl ⟨p', q, c, u, rfl, hsel, .inr hfails⟩

theorem targetChange_isApart {run : Val → Val → Val} (target : List Step) (v : Json) :
    (targetChange s run target v).IsApart := by
  induction target generalizing v with
  | nil => exact Change.isApart_whole
  | cons step rest ih =>
    refine Step.change_isApart (fun c w => ?_) v
    cases rest with
    | nil => exact Change.isApart_whole
    | cons next rest => exact ih w

end

/-! ## Filter statements -/

/-- A filter statement without attribute finders gives one value at once: the value with the results
of the filter function at the positions that the target selects, each computed with the original
container as relative node, or with the value itself where the target is empty. A part whose result
is undefined is removed, and nothing else changes. The first error in document order, of a result,
a condition or a slice, is the error of the whole. -/
theorem FilterStatement.apply_updates (target : List Step) (function : String)
    (arguments : List Expression) (each : Bool) (v : Json) (ctx : Context)
    (hkeys : v.HasDistinctKeys)
    (hfinder : Expression.stepsContain target = false ∧
      Expression.anyContains arguments = false) :
    ∃ change : Change,
      (∀ p x, change p = some x ↔
        (∃ c w, TargetSelects ctx.scope target v p c w ∧
          x = (Val.defined w).filtered (ctx.scope.result function)
            (denoteAll arguments (ctx.scope.withNode (.defined c))) each) ∨
        TargetFails ctx.scope target v p x) ∧
      (∀ p c w, TargetSelects ctx.scope target v p c w →
        v.at? p = some w ∧ v.at? p.dropLast = some c) ∧
      change.IsApart ∧
      ∀ now place,
        ((FilterStatement.mk target function arguments each).apply (.defined v) ctx now
          place).IsSingle (.orFirstError (v.changed change) (.ofJson? (v.update change))) := by
  let run (selected container : Val) : Val :=
    selected.filtered (ctx.scope.result function)
      (denoteAll arguments (ctx.scope.withNode container)) each
  have hpermits : ctx.Permits
      (Expression.stepsContain target || Expression.anyContains arguments) :=
    .inr (Bool.or_eq_false_iff.2 hfinder)
  have hvalue : (FilterStatement.mk target function arguments each).denote (.defined v) ctx.scope =
      .orFirstError (v.changed (targetChange ctx.scope run target v))
        (.ofJson? (v.update (targetChange ctx.scope run target v))) := by
    rw [FilterStatement.denote, ← Json.revise_eq _ v hkeys]
    exact replaceTarget_eq_revise run target hfinder.1 v hkeys
  refine ⟨targetChange ctx.scope run target v, fun p x => targetChange_eq_some_iff,
    fun p c w h => ⟨h.at?.1, h.at?.2.1⟩, targetChange_isApart target v, fun now place => ?_⟩
  rw [FilterStatement.apply_eq_just _ _ hpermits, hvalue]
  exact Flow.isSingle_just _

/-- Two visits of a patient; only the first one has a number. -/
def visits : Json :=
  .object [("patient", .string "bob"),
    ("visits", .array [.object [("note", .string "flu"), ("number", .string "12")], .bool true])]

/-- The number of a visit is replaced by the note beside it. -/
theorem FilterStatement.apply_updates_visits :
    visits.HasDistinctKeys ∧
    (Expression.stepsContain [.key "visits", .wildcard, .recursiveKey "number"] = false ∧
      Expression.anyContains [.basic .relative [.key "note"] none] = false) ∧
    ∃ change : Change,
      change [.field "visits", .element 0, .field "number"] = some (.defined (.string "flu")) ∧
      ∀ now place,
        ((FilterStatement.mk [.key "visits", .wildcard, .recursiveKey "number"] "filter.replace"
          [.basic .relative [.key "note"] none] false).apply (.defined visits) .standard now
          place).IsSingle
            (.orFirstError (visits.changed change) (.ofJson? (visits.update change))) := by
  have hkeys : visits.HasDistinctKeys := by
    simp [visits, Json.HasDistinctKeys, Json.ItemsHaveDistinctKeys, Json.FieldsHaveDistinctKeys,
      Entries.keys]
  obtain ⟨change, hchange, -, -, hsingle⟩ :=
    FilterStatement.apply_updates [.key "visits", .wildcard, .recursiveKey "number"]
      "filter.replace" [.basic .relative [.key "note"] none] false visits .standard hkeys
      ⟨rfl, rfl⟩
  have hrest : TargetSelects Context.standard.scope
      [.key "visits", .wildcard, .recursiveKey "number"] visits
      [.field "visits", .element 0, .field "number"]
      (.object [("note", .string "flu"), ("number", .string "12")]) (.string "12") :=
    .through (.child rfl rfl) (.through (.child rfl rfl) (.last (.child rfl rfl)))
  exact ⟨hkeys, ⟨rfl, rfl⟩, change, (hchange _ _).2 (.inl ⟨_, _, hrest, rfl⟩), hsingle⟩

end PolicyDecision
