import Mathlib.Data.List.Nodup
import Mathlib.Data.List.Perm.Basic
import PolicyDecision.Proofs.Json.Update

/-!
# PolicyDecision.Proofs.Evaluation.DocumentOrder

The order in which recursive steps collect.

A recursive step chooses at most one child of each container. Document order is the order of a reading
that goes depth first, with the children of a container from first to last and each before what it
contains. The step lists the chosen children in the order in which their containers are met, which is
document order only as long as no chosen child stands behind a sibling with another match inside.

* `Json.reading`: the positions inside a value in document order.
* `Json.chosen`, `Json.chosenByContainer`: the matches in document order, and in that of their containers.
* `Json.IsOrdered`: no match lies inside an earlier sibling of another one.
* `Json.Collects`: the recursion of the recursive steps, and what follows from it.
* `recursiveSteps_collect`: both recursive steps list every match once, in document order exactly if the
  matches are ordered.
-/

namespace PolicyDecision
namespace Json

/-! ## Reading a value -/

/-- The children of a container from first to last, under their keys. -/
def children : Json → List (Key × Json)
  | .array items => items.zipIdx.map fun item => (.element item.2, item.1)
  | .object fields => fields.map fun field => (.field field.1, field.2)
  | .null | .bool _ | .number _ | .string _ => []

mutual
/-- The positions inside a value in document order: the children of a container from first to last,
each before what it contains. -/
def reading : Json → List Path
  | .array items => readingItems 0 items
  | .object fields => readingFields fields
  | .null | .bool _ | .number _ | .string _ => []

def readingItems (i : Nat) : List Json → List Path
  | [] => []
  | j :: js => ([.element i] :: j.reading.map (.element i :: ·)) ++ readingItems (i + 1) js

def readingFields : List (String × Json) → List Path
  | [] => []
  | (name, j) :: rest => ([.field name] :: j.reading.map (.field name :: ·)) ++ readingFields rest
end

variable {v w : Json} {k : Key} {p : Path} {c : Key × Json}

theorem readingItems_eq (i : Nat) (items : List Json) :
    readingItems i items = (items.zipIdx i).flatMap fun item =>
      ([] :: item.1.reading).map (.element item.2 :: ·) := by
  induction items generalizing i with
  | nil => rfl
  | cons j js ih => rw [readingItems, ih, List.zipIdx_cons, List.flatMap_cons, List.map_cons]

theorem readingFields_eq (fields : List (String × Json)) :
    readingFields fields = fields.flatMap fun field =>
      ([] :: field.2.reading).map (.field field.1 :: ·) := by
  induction fields with
  | nil => rfl
  | cons f rest ih => rw [readingFields, ih, List.flatMap_cons, List.map_cons]

/-- A reading goes through the children one after the other. -/
theorem reading_eq (v : Json) :
    v.reading = v.children.flatMap fun c => ([] :: c.2.reading).map (c.1 :: ·) := by
  cases v with
  | array items => rw [reading, readingItems_eq, children, List.flatMap_map]
  | object fields => rw [reading, readingFields_eq, children, List.flatMap_map]
  | _ => rfl

theorem ne_nil_of_mem_reading (h : p ∈ v.reading) : p ≠ [] := by
  rw [reading_eq] at h
  obtain ⟨c, -, hp⟩ := List.mem_flatMap.1 h
  obtain ⟨q, -, rfl⟩ := List.mem_map.1 hp
  exact List.cons_ne_nil _ _

theorem child?_of_mem_children (hv : v.HasDistinctKeys) (h : c ∈ v.children) :
    v.child? c.1 = some c.2 := by
  cases v with
  | array items =>
    obtain ⟨item, hitem, rfl⟩ := List.mem_map.1 h
    exact List.mem_zipIdx_iff_getElem?.1 hitem
  | object fields =>
    obtain ⟨f, hf, rfl⟩ := List.mem_map.1 h
    exact Entries.lookup_of_mem hv.1 hf
  | _ => cases h

theorem mem_children_of_child? (h : v.child? k = some w) : (k, w) ∈ v.children := by
  cases v with
  | array items =>
    cases k with
    | field name => cases h
    | element i => exact List.mem_map.2 ⟨(w, i), List.mem_zipIdx_iff_getElem?.2 h, rfl⟩
  | object fields =>
    cases k with
    | field name => exact List.mem_map.2 ⟨(name, w), SortedTable.mem_of_lookup h, rfl⟩
    | element i => cases h
  | _ => cases h

theorem children_keys_nodup (hv : v.HasDistinctKeys) : (v.children.map (·.1)).Nodup := by
  cases v with
  | array items =>
    have hkeys : (children (.array items)).map (·.1) = (List.range items.length).map .element := by
      rw [children, List.map_map, List.range_eq_range', ← List.zipIdx_map_snd 0 items, List.map_map]
      rfl
    rw [hkeys]
    exact List.nodup_range.map fun i j h => Key.element.inj h
  | object fields =>
    have hkeys : (children (.object fields)).map (·.1) = (Entries.keys fields).map .field := by
      rw [children, Entries.keys, List.map_map, List.map_map]
      rfl
    rw [hkeys]
    exact hv.1.map fun a b h => Key.field.inj h
  | _ => exact List.nodup_nil

/-- No position is met twice. -/
theorem reading_nodup (hv : v.HasDistinctKeys) : v.reading.Nodup := by
  induction v using Json.child_induction with
  | h v ih =>
    rw [reading_eq]
    refine List.nodup_flatMap.2 ⟨fun c hc => ?_, ?_⟩
    · have hchild := child?_of_mem_children hv hc
      refine List.Nodup.map (fun q q' h => (List.cons.inj h).2) (List.nodup_cons.2 ⟨?_, ?_⟩)
      · exact fun h => ne_nil_of_mem_reading h rfl
      · exact ih c.1 c.2 hchild (hv.child hchild)
    · have hkeys := children_keys_nodup hv
      rw [List.Nodup, List.pairwise_map] at hkeys
      refine hkeys.imp fun {c c'} hne p hp hp' => ?_
      obtain ⟨q, -, rfl⟩ := List.mem_map.1 hp
      obtain ⟨q', -, h⟩ := List.mem_map.1 hp'
      exact hne (List.cons.inj h).1.symm

/-! ## Matches -/

/-- The child of a container that a recursive step takes, if there is one. -/
abbrev Choice := Json → Option Key

/-- A choice takes a child of the container. -/
def Choice.IsProper (choice : Choice) : Prop :=
  ∀ v k, choice v = some k → ∃ w, v.child? k = some w

variable {choice : Choice}

/-- The chosen children of all containers, in document order. -/
def chosen (choice : Choice) (v : Json) : List Path :=
  v.reading.filter fun p => (v.at? p.dropLast).bind choice == p.getLast?

/-- The chosen children in the order in which their containers are met. -/
def chosenByContainer (choice : Choice) (v : Json) : List Path :=
  ([] :: v.reading).filterMap fun p => ((v.at? p).bind choice).map fun k => p ++ [k]

/-- The children of a container before the one with a key. -/
def childrenBefore (v : Json) (k : Key) : List (Key × Json) :=
  v.children.takeWhile fun c => c.1 ≠ k

/-- No match lies inside an earlier sibling of another one. -/
def IsOrdered (choice : Choice) (v : Json) : Prop :=
  ∀ p w k, v.at? p = some w → choice w = some k → ∀ c ∈ w.childrenBefore k, c.2.chosen choice = []

/-- The matches in a value: the child that it chooses, in its place, and those in its children. -/
theorem chosen_eq (hv : v.HasDistinctKeys) :
    v.chosen choice = v.children.flatMap fun c =>
      (if choice v = some c.1 then [[c.1]] else []) ++ (c.2.chosen choice).map (c.1 :: ·) := by
  rw [chosen, reading_eq, List.filter_flatMap]
  refine List.flatMap_congr fun c hc => ?_
  have hchild := child?_of_mem_children hv hc
  have hbelow : (c.2.reading.map (c.1 :: ·)).filter
      (fun p => (v.at? p.dropLast).bind choice == p.getLast?) =
        (c.2.chosen choice).map (c.1 :: ·) := by
    rw [List.filter_map, chosen]
    refine congrArg _ (List.filter_congr fun p hp => ?_)
    have hne := ne_nil_of_mem_reading hp
    simp [List.dropLast_cons_of_ne_nil hne, List.getLast?_cons_of_ne_nil hne, at?, hchild]
  rw [List.map_cons, List.filter_cons, hbelow]
  simp only [List.dropLast_singleton, at?, Option.bind_some, List.getLast?_singleton, beq_iff_eq]
  split <;> rfl

/-- The child that a value chooses comes first. -/
theorem chosenByContainer_eq (hv : v.HasDistinctKeys) :
    v.chosenByContainer choice = (choice v).toList.map ([·]) ++ v.children.flatMap fun c =>
      (c.2.chosenByContainer choice).map (c.1 :: ·) := by
  have hbelow : v.reading.filterMap (fun p => ((v.at? p).bind choice).map fun k => p ++ [k]) =
      v.children.flatMap fun c => (c.2.chosenByContainer choice).map (c.1 :: ·) := by
    rw [reading_eq, List.filterMap_flatMap]
    refine List.flatMap_congr fun c hc => ?_
    rw [List.filterMap_map, chosenByContainer, List.map_filterMap]
    refine List.filterMap_congr fun p _ => ?_
    rw [Function.comp_apply, at?, child?_of_mem_children hv hc, Option.bind_some, Option.map_map]
    rfl
  rw [chosenByContainer, List.filterMap_cons, hbelow, at?, Option.bind_some]
  cases choice v <;> rfl

theorem mem_reading_of_at? {q : Path} (h : v.at? (q ++ [k]) = some w) : q ++ [k] ∈ v.reading := by
  induction q generalizing v with
  | nil =>
    obtain ⟨u, hu, -⟩ := Option.bind_eq_some_iff.1 h
    rw [reading_eq]
    exact List.mem_flatMap.2 ⟨_, mem_children_of_child? hu, List.mem_map.2 ⟨[], List.mem_cons_self, rfl⟩⟩
  | cons k' q ih =>
    obtain ⟨u, hu, hq⟩ := Option.bind_eq_some_iff.1 h
    rw [reading_eq]
    exact List.mem_flatMap.2 ⟨_, mem_children_of_child? hu,
      List.mem_map.2 ⟨_, List.mem_cons_of_mem _ (ih hq), rfl⟩⟩

/-- The matches are the children that their containers choose, at any depth. -/
theorem mem_chosen_iff (hchoice : choice.IsProper) :
    p ∈ v.chosen choice ↔ ∃ q w k, p = q ++ [k] ∧ v.at? q = some w ∧ choice w = some k := by
  rw [chosen, List.mem_filter, beq_iff_eq]
  constructor
  · rintro ⟨hp, hbind⟩
    obtain ⟨q, k, rfl⟩ : ∃ q k, p = q ++ [k] :=
      ⟨_, _, (List.dropLast_append_getLast (ne_nil_of_mem_reading hp)).symm⟩
    rw [List.dropLast_concat, List.getLast?_concat, Option.bind_eq_some_iff] at hbind
    obtain ⟨w, hw, hk⟩ := hbind
    exact ⟨q, w, k, rfl, hw, hk⟩
  · rintro ⟨q, w, k, rfl, hw, hk⟩
    obtain ⟨u, hu⟩ := hchoice w k hk
    refine ⟨mem_reading_of_at? (w := u) ?_, ?_⟩
    · rw [at?_append, hw, Option.bind_some, at?, hu]
      rfl
    · rw [List.dropLast_concat, List.getLast?_concat, hw, Option.bind_some, hk]

/-! ## The two orders -/

/-- A value that chooses a child has it in its place among the children. -/
theorem exists_split (hchoice : choice.IsProper) (hv : v.HasDistinctKeys) (hk : choice v = some k) :
    ∃ w after, v.children = v.childrenBefore k ++ (k, w) :: after ∧
      (∀ c ∈ v.childrenBefore k, c.1 ≠ k) ∧ ∀ c ∈ after, c.1 ≠ k := by
  obtain ⟨w, hw⟩ := hchoice v k hk
  obtain ⟨before, after, hsplit⟩ := List.append_of_mem (mem_children_of_child? hw)
  have hkeys := children_keys_nodup hv
  rw [hsplit, List.map_append, List.map_cons, List.nodup_append] at hkeys
  obtain ⟨-, hafter, hbefore⟩ := hkeys
  have hne (c : Key × Json) (hc : c ∈ before) : c.1 ≠ k :=
    hbefore _ (List.mem_map_of_mem hc) _ List.mem_cons_self
  have htake : v.childrenBefore k = before := by
    rw [childrenBefore, hsplit, List.takeWhile_append_of_pos (by simpa using hne),
      List.takeWhile_cons_of_neg (by simp), List.append_nil]
  refine ⟨w, after, htake ▸ hsplit, htake ▸ hne, fun c hc he => ?_⟩
  exact (List.nodup_cons.1 hafter).1 (List.mem_map.2 ⟨c, hc, he⟩)

/-- The matches of a value that chooses the key `k`: it stands behind those in the children before. -/
theorem chosen_of_some (hchoice : choice.IsProper) (hv : v.HasDistinctKeys)
    (hk : choice v = some k) :
    ∃ w after, v.children = v.childrenBefore k ++ (k, w) :: after ∧
      v.chosen choice =
        (v.childrenBefore k).flatMap (fun c => (c.2.chosen choice).map (c.1 :: ·)) ++
          [k] :: ((k, w) :: after).flatMap fun c => (c.2.chosen choice).map (c.1 :: ·) := by
  obtain ⟨w, after, hsplit, hbefore, hafter⟩ := exists_split hchoice hv hk
  refine ⟨w, after, hsplit, ?_⟩
  have hskip {l : List (Key × Json)} (h : ∀ c ∈ l, c.1 ≠ k) :
      (l.flatMap fun c => (if choice v = some c.1 then [[c.1]] else []) ++
        (c.2.chosen choice).map (c.1 :: ·)) =
          l.flatMap fun c => (c.2.chosen choice).map (c.1 :: ·) := by
    refine List.flatMap_congr fun c hc => ?_
    rw [if_neg (by rw [hk]; exact fun he => h c hc (Option.some.inj he).symm), List.nil_append]
  rw [chosen_eq hv, hsplit, List.flatMap_append, List.flatMap_cons, List.flatMap_cons,
    hskip hbefore, hskip hafter, if_pos hk]
  rfl

theorem chosen_of_none (hv : v.HasDistinctKeys) (hk : choice v = none) :
    v.chosen choice = v.children.flatMap fun c => (c.2.chosen choice).map (c.1 :: ·) := by
  rw [chosen_eq hv]
  refine List.flatMap_congr fun c _ => ?_
  rw [if_neg (by rw [hk]; exact nofun), List.nil_append]

/-- Both orders list the same matches. -/
theorem chosenByContainer_perm (hchoice : choice.IsProper) (hv : v.HasDistinctKeys) :
    (v.chosenByContainer choice).Perm (v.chosen choice) := by
  induction v using Json.child_induction with
  | h v ih =>
    have hbelow : (v.children.flatMap fun c => (c.2.chosenByContainer choice).map (c.1 :: ·)).Perm
        (v.children.flatMap fun c => (c.2.chosen choice).map (c.1 :: ·)) :=
      List.Perm.flatMap_left _ fun c hc =>
        have hchild := child?_of_mem_children hv hc
        (ih c.1 c.2 hchild (hv.child hchild)).map _
    rw [chosenByContainer_eq hv]
    cases hk : choice v with
    | none => rwa [chosen_of_none hv hk]
    | some k =>
      obtain ⟨w, after, hsplit, hchosen⟩ := chosen_of_some hchoice hv hk
      rw [hchosen]
      refine List.Perm.trans (hbelow.cons [k]) ?_
      rw [hsplit, List.flatMap_append]
      exact List.perm_middle.symm

theorem flatMap_eq_iff {α β : Type} {l : List α} {f g : α → List β}
    (h : ∀ a ∈ l, (f a).length = (g a).length) :
    l.flatMap f = l.flatMap g ↔ ∀ a ∈ l, f a = g a := by
  induction l with
  | nil => simp
  | cons a rest ih =>
    rw [List.flatMap_cons, List.flatMap_cons, List.forall_mem_cons,
      ← ih fun b hb => h b (List.mem_cons_of_mem a hb)]
    exact ⟨fun heq => List.append_inj heq (h a List.mem_cons_self), fun ⟨hf, hr⟩ => by rw [hf, hr]⟩

/-- The matches of a value are ordered if its own one is and those of its children are. -/
theorem isOrdered_iff (hv : v.HasDistinctKeys) : v.IsOrdered choice ↔
    (∀ k, choice v = some k → ∀ c ∈ v.childrenBefore k, c.2.chosen choice = []) ∧
      ∀ c ∈ v.children, c.2.IsOrdered choice := by
  constructor
  · intro h
    refine ⟨fun k => h [] v k rfl, fun c hc p w k hw => ?_⟩
    refine h (c.1 :: p) w k ?_
    rwa [at?, child?_of_mem_children hv hc]
  · rintro ⟨hown, hbelow⟩ p w k hw
    cases p with
    | nil =>
      obtain rfl : v = w := Option.some.inj hw
      exact hown k
    | cons k' p =>
      obtain ⟨u, hu, hp⟩ := Option.bind_eq_some_iff.1 hw
      exact hbelow (k', u) (mem_children_of_child? hu) p w k hp

/-- The order of the containers is document order exactly if no match lies inside an earlier sibling of
another one. -/
theorem chosenByContainer_eq_chosen_iff (hchoice : choice.IsProper) (hv : v.HasDistinctKeys) :
    v.chosenByContainer choice = v.chosen choice ↔ v.IsOrdered choice := by
  induction v using Json.child_induction with
  | h v ih =>
    have hchildren {c : Key × Json} (hc : c ∈ v.children) :
        (c.2.chosenByContainer choice).map (c.1 :: ·) = (c.2.chosen choice).map (c.1 :: ·) ↔
          c.2.IsOrdered choice := by
      have hchild := child?_of_mem_children hv hc
      rw [← ih c.1 c.2 hchild (hv.child hchild)]
      exact (List.map_injective_iff.2 fun q q' h => (List.cons.inj h).2).eq_iff
    have hlength {c : Key × Json} (hc : c ∈ v.children) :
        ((c.2.chosenByContainer choice).map (c.1 :: ·)).length =
          ((c.2.chosen choice).map (c.1 :: ·)).length :=
      ((chosenByContainer_perm hchoice (hv.child (child?_of_mem_children hv hc))).map _).length_eq
    have hbelow := (flatMap_eq_iff fun c hc => hlength hc).trans
      (forall₂_congr fun c hc => hchildren hc)
    rw [isOrdered_iff hv, chosenByContainer_eq hv]
    cases hk : choice v with
    | none =>
      rw [chosen_of_none hv hk, ← hbelow]
      simp
    | some k =>
      obtain ⟨w, after, hsplit, hchosen⟩ := chosen_of_some hchoice hv hk
      have hbefore : (v.childrenBefore k).flatMap (fun c => (c.2.chosen choice).map (c.1 :: ·)) = []
          ↔ ∀ c ∈ v.childrenBefore k, c.2.chosen choice = [] := by
        simp [List.flatMap_eq_nil_iff]
      have hall : (v.children.flatMap fun c => (c.2.chosen choice).map (c.1 :: ·)) =
          (v.childrenBefore k).flatMap (fun c => (c.2.chosen choice).map (c.1 :: ·)) ++
            ((k, w) :: after).flatMap fun c => (c.2.chosen choice).map (c.1 :: ·) := by
        rw [hsplit, List.flatMap_append]
      have hown : (∀ k', some k = some k' → ∀ c ∈ v.childrenBefore k', c.2.chosen choice = []) ↔
          ∀ c ∈ v.childrenBefore k, c.2.chosen choice = [] :=
        ⟨fun h => h k rfl, fun h k' hk' => Option.some.inj hk' ▸ h⟩
      rw [hchosen, hown, ← hbefore, ← hbelow, hall]
      cases hmatches : (v.childrenBefore k).flatMap fun c => (c.2.chosen choice).map (c.1 :: ·) with
      | nil => simp
      | cons p rest =>
        -- the first match would be the child itself, but it lies deeper in a child before it
        refine iff_of_false (fun heq => ?_) fun h => nomatch h.1
        obtain rfl : [k] = p := (List.cons.inj heq).1
        have hmem : [k] ∈ (v.childrenBefore k).flatMap
            fun c => (c.2.chosen choice).map (c.1 :: ·) := hmatches ▸ List.mem_cons_self
        obtain ⟨c, -, hp⟩ := List.mem_flatMap.1 hmem
        obtain ⟨q, hq, he⟩ := List.mem_map.1 hp
        exact ne_nil_of_mem_reading (List.mem_of_mem_filter hq) (List.cons.inj he).2

/-! ## Recursive steps -/

/-- The values that are collected from a value: that of the child that it chooses, before those that
are collected from its children. -/
def Collects (choice : Choice) (collect : Json → List Json) : Prop :=
  ∀ v, collect v = ((choice v).bind v.child?).toList ++ v.children.flatMap fun c => collect c.2

/-- How a list of values is made of the matches in a value. -/
structure IsCollected (choice : Choice) (v : Json) (result : List Json) : Prop where
  /-- Every child that is chosen at any depth is listed once. -/
  matches_iff : ∀ p, p ∈ v.chosenByContainer choice ↔
    ∃ q w k, p = q ++ [k] ∧ v.at? q = some w ∧ choice w = some k
  nodup : (v.chosenByContainer choice).Nodup
  values : List.Forall₂ (fun p w => v.at? p = some w) (v.chosenByContainer choice) result
  /-- The list is in document order exactly if the matches are ordered. -/
  perm : (v.chosenByContainer choice).Perm (v.chosen choice)
  inOrder_iff : v.chosenByContainer choice = v.chosen choice ↔ v.IsOrdered choice

theorem forall₂_flatMap {α β γ : Type} {R : β → γ → Prop} {l : List α} {f : α → List β}
    {g : α → List γ} (h : ∀ a ∈ l, List.Forall₂ R (f a) (g a)) :
    List.Forall₂ R (l.flatMap f) (l.flatMap g) := by
  have hself : List.Forall₂ (fun a b => a = b ∧ a ∈ l) l l :=
    List.forall₂_same.2 fun a ha => ⟨rfl, ha⟩
  exact List.rel_flatMap hself fun a b ⟨hab, ha⟩ => hab ▸ h a ha

/-- The collected values stand at the positions of the chosen children. -/
theorem Collects.values {collect : Json → List Json} (h : Collects choice collect)
    (hchoice : choice.IsProper) (hv : v.HasDistinctKeys) :
    List.Forall₂ (fun p w => v.at? p = some w) (v.chosenByContainer choice) (collect v) := by
  induction v using Json.child_induction with
  | h v ih =>
    rw [chosenByContainer_eq hv, h v]
    refine List.rel_append ?_ (forall₂_flatMap fun c hc => ?_)
    · cases hk : choice v with
      | none => exact .nil
      | some k =>
        obtain ⟨w, hw⟩ := hchoice v k hk
        rw [Option.bind_some, hw]
        refine .cons ?_ .nil
        rw [at?, hw]
        rfl
    · have hchild := child?_of_mem_children hv hc
      rw [List.forall₂_map_left_iff]
      refine (ih c.1 c.2 hchild (hv.child hchild)).imp fun _ _ hp => ?_
      rw [at?, hchild, Option.bind_some, hp]

theorem Collects.isCollected {collect : Json → List Json} (h : Collects choice collect)
    (hchoice : choice.IsProper) (hv : v.HasDistinctKeys) : v.IsCollected choice (collect v) where
  matches_iff _ := (chosenByContainer_perm hchoice hv).mem_iff.trans (mem_chosen_iff hchoice)
  nodup := (chosenByContainer_perm hchoice hv).nodup_iff.2 ((reading_nodup hv).filter _)
  values := h.values hchoice hv
  perm := chosenByContainer_perm hchoice hv
  inOrder_iff := chosenByContainer_eq_chosen_iff hchoice hv

/-! ### By name -/

/-- The field of a name. -/
def fieldNamed (name : String) : Choice
  | .object fields => if name ∈ Entries.keys fields then some (.field name) else none
  | _ => none

theorem isProper_fieldNamed (name : String) : Choice.IsProper (fieldNamed name) := by
  intro v k hk
  cases v with
  | object fields =>
    rw [fieldNamed] at hk
    split at hk
    · rename_i hmem
      obtain rfl := Option.some.inj hk
      exact Option.isSome_iff_exists.1 (isSome_lookup_iff.2 hmem)
    · cases hk
  | _ => cases hk

theorem flatMap_children_array {α : Type} (items : List Json) (f : Json → List α) :
    ((children (.array items)).flatMap fun c => f c.2) = items.flatMap f := by
  rw [children, List.flatMap_map, ← List.flatMap_map (f := Prod.fst) (g := f), List.zipIdx_map_fst]

theorem flatMap_children_object {α : Type} (fields : List (String × Json)) (f : Json → List α) :
    ((children (.object fields)).flatMap fun c => f c.2) = fields.flatMap fun field => f field.2 := by
  rw [children, List.flatMap_map]

theorem recursiveKeyItems_eq (name : String) (items : List Json) :
    recursiveKeyItems name items = items.flatMap (recursiveKey name) := by
  induction items with
  | nil => rfl
  | cons j js ih => rw [recursiveKeyItems, ih, List.flatMap_cons]

theorem recursiveKeyFields_eq (name : String) (fields : List (String × Json)) :
    recursiveKeyFields name fields = fields.flatMap fun field => recursiveKey name field.2 := by
  induction fields with
  | nil => rfl
  | cons f rest ih => rw [recursiveKeyFields, ih, List.flatMap_cons]

theorem collects_recursiveKey (name : String) : Collects (fieldNamed name) (recursiveKey name) := by
  intro v
  cases v with
  | array items => rw [recursiveKey, recursiveKeyItems_eq, flatMap_children_array]; rfl
  | object fields =>
    have hown : (fields.lookup name).toList =
        ((fieldNamed name (.object fields)).bind (child? (.object fields))).toList := by
      rw [fieldNamed]
      split
      · rfl
      · rename_i hnot
        rw [← isSome_lookup_iff, Option.not_isSome_iff_eq_none] at hnot
        rw [hnot]
        rfl
    rw [recursiveKey, recursiveKeyFields_eq, flatMap_children_object, hown]
  | _ => rfl

/-! ### By index -/

/-- The element at an index, which counts from the end if it is negative. -/
def elementIndexed (index : Int) : Choice
  | .array items =>
    if 0 ≤ index ∧ index < items.length then some (.element index.toNat)
    else if -items.length ≤ index ∧ index < 0 then some (.element (items.length + index).toNat)
    else none
  | _ => none

theorem elementIndexed_array (index : Int) (items : List Json) :
    elementIndexed index (.array items) = (normalizeIndex index items.length).map .element := by
  rw [elementIndexed, normalizeIndex]
  by_cases hneg : index < 0
  · have hfirst : ¬ (0 ≤ index ∧ index < items.length) := by omega
    have hrange : (0 ≤ index + (items.length : Int) ∧ index + (items.length : Int) < items.length) ↔
        (-(items.length : Int) ≤ index ∧ index < 0) := by omega
    simp only [if_neg hfirst, if_pos hneg, hrange, Int.add_comm (items.length : Int)]
    split <;> rfl
  · have hsecond : ¬ (-(items.length : Int) ≤ index ∧ index < 0) := by omega
    simp only [if_neg hneg, if_neg hsecond]
    split <;> rfl

theorem lt_of_normalizeIndex {index : Int} {length i : Nat}
    (h : normalizeIndex index length = some i) : i < length := by
  rw [normalizeIndex] at h
  simp only [Option.ite_none_right_eq_some, Option.some.injEq] at h
  omega

theorem isProper_elementIndexed (index : Int) : Choice.IsProper (elementIndexed index) := by
  intro v k hk
  cases v with
  | array items =>
    rw [elementIndexed_array] at hk
    obtain ⟨i, hi, rfl⟩ := Option.map_eq_some_iff.1 hk
    exact ⟨_, List.getElem?_eq_getElem (lt_of_normalizeIndex hi)⟩
  | _ => cases hk

theorem recursiveIndexItems_eq (index : Int) (items : List Json) :
    recursiveIndexItems index items = items.flatMap (recursiveIndex index) := by
  induction items with
  | nil => rfl
  | cons j js ih => rw [recursiveIndexItems, ih, List.flatMap_cons]

theorem recursiveIndexFields_eq (index : Int) (fields : List (String × Json)) :
    recursiveIndexFields index fields = fields.flatMap fun field => recursiveIndex index field.2 := by
  induction fields with
  | nil => rfl
  | cons f rest ih => rw [recursiveIndexFields, ih, List.flatMap_cons]

theorem collects_recursiveIndex (index : Int) :
    Collects (elementIndexed index) (recursiveIndex index) := by
  intro v
  cases v with
  | array items =>
    rw [recursiveIndex, recursiveIndexItems_eq, flatMap_children_array, elementIndexed_array,
      elementAt]
    cases normalizeIndex index items.length <;> rfl
  | object fields => rw [recursiveIndex, recursiveIndexFields_eq, flatMap_children_object]; rfl
  | _ => rfl

end Json

/-- A recursive step gives the value of every match at any depth once, in the order in which the
containers of the matches are met. That is document order if and only if no match lies inside an
earlier sibling of another one. -/
theorem recursiveSteps_collect {v : Json} (hv : v.HasDistinctKeys) :
    (∀ name ctx, ∃ result, (Step.recursiveKey name).apply (.defined v) ctx =
        .just (.defined (.array result)) ∧ v.IsCollected (Json.fieldNamed name) result) ∧
      ∀ (index : Int64) ctx, ∃ result, (Step.recursiveIndex index).apply (.defined v) ctx =
        .just (.defined (.array result)) ∧
          v.IsCollected (Json.elementIndexed index.toInt) result :=
  ⟨fun name _ => ⟨_, rfl,
      (Json.collects_recursiveKey name).isCollected (Json.isProper_fieldNamed name) hv⟩,
    fun index _ => ⟨_, rfl, (Json.collects_recursiveIndex index.toInt).isCollected
      (Json.isProper_elementIndexed index.toInt) hv⟩⟩

/-- The owner of a document inside another one, which is written before the owner of the other one. -/
def nestedOwners : Json :=
  .object [("cover", .object [("owner", .string "alice")]), ("owner", .string "bob")]

theorem nestedOwners_hasDistinctKeys : nestedOwners.HasDistinctKeys := by
  simp [nestedOwners, Json.HasDistinctKeys, Json.FieldsHaveDistinctKeys, Entries.keys]

/-- The owners are collected, the outer one first. -/
theorem recursiveSteps_collect_nestedOwners :
    nestedOwners.HasDistinctKeys ∧
      ∃ result, (Step.recursiveKey "owner").apply (.defined nestedOwners) {} =
        .just (.defined (.array result)) ∧
          nestedOwners.IsCollected (Json.fieldNamed "owner") result :=
  ⟨nestedOwners_hasDistinctKeys,
    (recursiveSteps_collect nestedOwners_hasDistinctKeys).1 "owner" {}⟩

/-- In document order the owner of the inner document comes first; the step gives the outer one first. -/
theorem recursiveSteps_out_of_order :
    nestedOwners.HasDistinctKeys ∧
      (Step.recursiveKey "owner").apply (.defined nestedOwners) {} =
        .just (.defined (.array [.string "bob", .string "alice"])) ∧
      nestedOwners.chosen (Json.fieldNamed "owner") =
        [[.field "cover", .field "owner"], [.field "owner"]] ∧
      ¬ List.Forall₂ (fun p w => nestedOwners.at? p = some w)
        (nestedOwners.chosen (Json.fieldNamed "owner")) [.string "bob", .string "alice"] := by
  have hchosen : nestedOwners.chosen (Json.fieldNamed "owner") =
      [[.field "cover", .field "owner"], [.field "owner"]] := rfl
  refine ⟨nestedOwners_hasDistinctKeys, rfl, hchosen, ?_⟩
  rw [hchosen]
  rintro (_ | ⟨hfirst, -⟩)
  have halice : nestedOwners.at? [.field "cover", .field "owner"] = some (.string "alice") := rfl
  rw [halice] at hfirst
  simp at hfirst

end PolicyDecision
