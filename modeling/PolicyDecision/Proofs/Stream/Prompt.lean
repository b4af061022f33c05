import PolicyDecision.Stream.Resume

/-!
# PolicyDecision.Proofs.Stream.Prompt

Flows with exactly one item, after their calls.

* `Event.prompt`: calls, then an item.
* `Combine.interleave_prompt`: prompt streams are taken once each, in turn.
* `Combine.scan_prompt`: together they give one combination, at the end.
* `Flow.combine_prompt`, `Switch.follow_prompt`: the combinators keep promptness.
* `Stream.combineLatest_just`, `Stream.switchMap_just`: they make one item of single items.
-/

namespace PolicyDecision

variable {α β : Type}

/-- Some calls, then an item. -/
def Event.prompt (calls : List FinderCall) (a : α) : List (Event α) := calls.map .call ++ [.item a]

theorem Event.map_prompt (f : α → β) (calls : List FinderCall) (a : α) :
    (Event.prompt calls a).map (Event.map f) = Event.prompt calls (f a) := by
  simp [Event.prompt, Event.map, Function.comp_def]

theorem Event.items_prompt (calls : List FinderCall) (a : α) :
    Event.items (Event.prompt calls a) = [a] := by
  simp [Event.items, Event.prompt, Event.item?, List.filterMap_append, List.filterMap_map,
    Function.comp_def]

theorem Event.calls_prompt (calls : List FinderCall) (a : α) :
    Event.calls (Event.prompt calls a) = calls := by
  simp [Event.calls, Event.prompt, Event.call?, List.filterMap_append, List.filterMap_map,
    Function.comp_def]

namespace Combine

theorem nextItem_prompt (calls : List FinderCall) (a : α) :
    nextItem (Event.prompt calls a) = (calls, some (a, [])) := by
  induction calls with
  | nil => rfl
  | cons c rest ih =>
    rw [Event.prompt] at ih ⊢
    rw [List.map_cons, List.cons_append, nextItem, ih]

theorem interleave_cons_item {i : Nat} {events rest : List (Event α)} {a : α}
    {calls : List FinderCall} (h : nextItem events = (calls, some (a, rest)))
    (others : List (Nat × List (Event α))) :
    interleave ((i, events) :: others) =
      calls.map .call ++ .item (i, a) :: interleave (others ++ [(i, rest)]) := by
  rw [interleave]
  split <;> simp_all

theorem interleave_cons_nil {i : Nat} {events : List (Event α)} {calls : List FinderCall}
    (h : nextItem events = (calls, none)) (others : List (Nat × List (Event α))) :
    interleave ((i, events) :: others) = calls.map .call ++ interleave others := by
  rw [interleave]
  split <;> simp_all

/-- Streams without events take their turns in silence. -/
theorem interleave_exhausted (indices : List Nat) :
    interleave (indices.map fun i => (i, ([] : List (Event α)))) = [] := by
  induction indices with
  | nil => simp [interleave]
  | cons i rest ih =>
    rw [List.map_cons, interleave_cons_nil rfl]
    simpa using ih

/-- Prompt streams are taken once each, in turn. -/
theorem interleave_prompt (ready : List (Nat × List FinderCall × α)) (exhausted : List Nat) :
    interleave (ready.map (fun r => (r.1, Event.prompt r.2.1 r.2.2)) ++
      exhausted.map fun i => (i, [])) =
      ready.flatMap fun r => Event.prompt r.2.1 (r.1, r.2.2) := by
  induction ready generalizing exhausted with
  | nil => simpa using interleave_exhausted exhausted
  | cons r rest ih =>
    have hrest := ih (exhausted ++ [r.1])
    rw [List.map_append, List.map_singleton, ← List.append_assoc] at hrest
    rw [List.map_cons, List.cons_append, interleave_cons_item (nextItem_prompt _ _), hrest]
    simp [Event.prompt]

theorem allPresent_some (values : List α) : allPresent (values.map some) = some values := by
  induction values with
  | nil => rfl
  | cons a rest ih => rw [List.map_cons, allPresent, ih]; rfl

theorem allPresent_none {before after : List (Option α)} :
    allPresent (before ++ none :: after) = none := by
  induction before with
  | nil => rfl
  | cons a rest ih =>
    cases a with
    | none => rfl
    | some a => rw [List.cons_append, allPresent, ih]; rfl

theorem scan_calls (f : List α → β) (calls : List FinderCall)
    (events : List (Event (Nat × α))) (latest : List (Option α)) :
    scan f (calls.map .call ++ events) latest =
      (calls.map .call ++ (scan f events latest).1, (scan f events latest).2) := by
  induction calls with
  | nil => rfl
  | cons c rest ih => rw [List.map_cons, List.cons_append, scan, ih]; rfl

/-- Streams that give an item each, in order, give one combination at the end; what came before is
there already. -/
theorem scan_prompt (f : List α → β) (before : List α) (next : List (List FinderCall × α))
    (hne : next ≠ []) :
    scan f ((next.zipIdx before.length).flatMap fun r => Event.prompt r.1.1 (r.2, r.1.2))
        (before.map some ++ List.replicate next.length none) =
      (Event.prompt (next.flatMap (·.1)) (f (before ++ next.map (·.2))),
        (before ++ next.map (·.2)).map some) := by
  induction next generalizing before with
  | nil => exact absurd rfl hne
  | cons r rest ih =>
    have hset : (before.map some ++ List.replicate (r :: rest).length none).set before.length
        (some r.2) = (before ++ [r.2]).map some ++ List.replicate rest.length none := by
      rw [List.set_append_right _ _ (by simp)]
      simp [List.replicate_succ]
    rw [List.zipIdx_cons, List.flatMap_cons, Event.prompt, List.append_assoc, scan_calls,
      List.singleton_append, scan, hset]
    cases rest with
    | nil =>
      have hall : allPresent (before.map some ++ [some r.2]) = some (before ++ [r.2]) := by
        simpa using allPresent_some (before ++ [r.2])
      simp [scan, hall, Event.prompt]
    | cons r' rest =>
      have hrest := ih (before ++ [r.2]) (by simp)
      have hnone : allPresent ((before ++ [r.2]).map some ++
          List.replicate (r' :: rest).length none) = none := by
        rw [List.length_cons, List.replicate_succ, allPresent_none]
      rw [List.length_append, List.length_singleton] at hrest
      rw [hrest, hnone]
      simp [Event.prompt]

end Combine

/-! ## Combinators -/

namespace Flow

/-- Prompt flows that start together make a prompt flow. -/
theorem combine_prompt (f : List α → β) (sources : List (Flow α))
    (next : List (List FinderCall × α)) (hne : next ≠ [])
    (h : sources.map Flow.events = next.map fun r => Event.prompt r.1 r.2) :
    Flow.combine f (List.replicate sources.length none) sources (List.range sources.length) =
      ⟨Event.prompt (next.flatMap (·.1)) (f (next.map (·.2))),
        .combine f ((next.map (·.2)).map some) (sources.map Flow.rest)⟩ := by
  have hlen : sources.length = next.length := by
    simpa using congrArg List.length h
  have hqueue : (List.range sources.length).map (fun i =>
      (i, ((sources[i]?).map Flow.events).getD [])) =
      ((next.zipIdx 0).map fun r => (r.2, r.1)).map fun r => (r.1, Event.prompt r.2.1 r.2.2) := by
    refine List.ext_getElem (by simp [hlen]) fun i h₁ h₂ => ?_
    have hi : i < sources.length := by simpa using h₁
    have hi' : i < next.length := hlen ▸ hi
    have hev : (sources[i]).events = Event.prompt (next[i]).1 (next[i]).2 := by
      have := congrArg (fun l : List (List (Event α)) => l[i]?) h
      simpa [hi, hi'] using this
    simp [hi, hev]
  have hinter := Combine.interleave_prompt ((next.zipIdx 0).map fun r => (r.2, r.1)) []
  rw [List.map_nil, List.append_nil, List.flatMap_map] at hinter
  have hscan := Combine.scan_prompt f [] next hne
  simp only [List.length_nil, List.map_nil, List.nil_append] at hscan
  rw [Flow.combine, hqueue, hinter, hlen]
  simp only [hscan]

end Flow

/-- A prompt stream is followed by the events of its item's stream. -/
theorem Switch.follow_prompt (stream : α → Place → Flow β) (place : Place)
    (calls : List FinderCall) (a : α) (count : Nat) (inner : Rest β) :
    Switch.follow stream place (Event.prompt calls a) count inner =
      (calls.map .call ++ (stream a ((count + 1) :: place)).events, count + 1,
        (stream a ((count + 1) :: place)).rest) := by
  induction calls with
  | nil => simp [Event.prompt, Switch.follow]
  | cons c rest ih =>
    rw [Event.prompt] at ih ⊢
    rw [List.map_cons, List.cons_append, Switch.follow, ih]
    rfl

/-! ## Single items -/

namespace Stream

theorem map_just (f : α → β) (a : α) : (just a).map f = just (f a) := rfl

theorem switchMap_just (a : α) (stream : α → Stream β) (b : β) (h : stream a = just b) :
    (just a).switchMap stream = just b := by
  funext now place
  simp [switchMap, just, Flow.just, Flow.switch, Switch.follow, h, Rest.switch, Rest.isEnded]

theorem combineLatest_just (f : List α → β) (values : List α) :
    combineLatest (values.map just) f = just (f values) := by
  funext now place
  by_cases hne : values = []
  · subst hne
    rfl
  · have hflows : ((values.map just).mapIdx fun i source => source now (i :: place)) =
        values.map Flow.just :=
      List.ext_getElem (by simp) fun i h₁ h₂ => by simp [just]
    have hcombine := Flow.combine_prompt f (values.map Flow.just) (values.map fun v => ([], v))
      (by simpa using hne) (by simp [Flow.just, Event.prompt, Function.comp_def])
    simp only [List.length_map] at hcombine
    have hended : (values.map Flow.just).map Flow.rest = values.map fun _ => .ended := by
      simp [Flow.just, Function.comp_def]
    rw [combineLatest, hflows, List.length_map, hcombine, hended]
    simp [hne, just, Flow.just, Event.prompt, Rest.combine, Rest.isEnded, Function.comp_def]

end Stream

end PolicyDecision
