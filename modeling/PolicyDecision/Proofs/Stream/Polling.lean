import PolicyDecision.Proofs.Stream.Tracking

/-!
# PolicyDecision.Proofs.Stream.Polling

A switch as the loop that polls its two streams.

The inner stream is polled first, and an item of it is handed over at once. When it has nothing, the
outer stream is polled; its item replaces the inner stream, which is polled in turn.

* `SwitchLoop.turn`: one turn of the loop.
* `SwitchLoop.Drains`: the loop is run until nothing is ready.
* `SwitchLoop.drains`: the events are those of `Flow.switch`.
* `SwitchLoop.Follows`: the loop stands for a switch at rest. `gives_switchMap` and
  `Follows.resume` show that it does so from the start, and goes on to do so.
-/

namespace PolicyDecision

variable {α β : Type}

namespace Rest

theorem isEnded_switch (stream : α → Stream β) (place : Place) (count : Nat) (outer : Rest α)
    (inner : Rest β) :
    (Rest.switch stream place count outer inner).isEnded = (outer.isEnded && inner.isEnded) := by
  rw [switch]
  cases outer.isEnded && inner.isEnded <;> rfl

/-- A switch at rest goes on as its streams do. -/
theorem resume_switch (now : Snapshot) (deliveries : List Delivery) (stream : α → Stream β)
    (place : Place) (count : Nat) (outer : Rest α) (inner : Rest β) :
    (Rest.switch stream place count outer inner).resume now deliveries =
      Flow.switch stream now place count (outer.resume now deliveries)
        (inner.resume now deliveries) := by
  rw [switch]
  split
  · rename_i hended
    rw [Bool.and_eq_true] at hended
    rw [eq_ended_of_isEnded hended.1, eq_ended_of_isEnded hended.2]
    simp [resume, Flow.switch, Switch.follow, switch, isEnded]
  · rw [resume]

end Rest

namespace Flow

/-- What is kept of a stream that has nothing ready. -/
def idle (r : Rest α) : Option (Flow α) := if r.isEnded then none else some ⟨[], r⟩

/-- One poll of a stream: the calls it makes, its item, and what is kept of it. -/
def poll : Option (Flow α) → List FinderCall × Option α × Option (Flow α)
  | none => ([], none, none)
  | some w =>
    match Combine.nextItem w.events with
    | (calls, some (a, rest)) => (calls, some a, some ⟨rest, w.rest⟩)
    | (calls, none) => (calls, none, idle w.rest)

/-- A stream that was dropped has ended. -/
def ofOption (w : Option (Flow α)) : Flow α := w.getD ⟨[], .ended⟩

theorem poll_call (c : FinderCall) (events : List (Event α)) (r : Rest α) :
    poll (some ⟨.call c :: events, r⟩) =
      (c :: (poll (some ⟨events, r⟩)).1, (poll (some ⟨events, r⟩)).2) := by
  cases h : Combine.nextItem events with
  | mk calls next => cases next <;> simp [poll, Combine.nextItem, h]

end Flow

/-- The state of the loop; `count` is the number of outer items so far. -/
structure SwitchLoop (α β : Type) : Type 1 where
  outer : Option (Flow α)
  inner : Option (Flow β)
  count : Nat

namespace SwitchLoop

open PolicyDecision.Flow (idle poll ofOption)

/-- How a turn ends: with an item that is handed over, with one more turn, or with neither. -/
inductive Outcome (β : Type) where
  | item (b : β)
  | again
  | waits

def turn (stream : α → Stream β) (now : Snapshot) (place : Place) (s : SwitchLoop α β) :
    List FinderCall × Outcome β × SwitchLoop α β :=
  match poll s.inner with
  | (calls, some b, inner) => (calls, .item b, { s with inner })
  | (calls, none, inner) =>
    match poll s.outer with
    | (more, some a, outer) =>
      (calls ++ more, .again,
        ⟨outer, some (stream a now ((s.count + 1) :: place)), s.count + 1⟩)
    | (more, none, outer) => (calls ++ more, .waits, ⟨outer, inner, s.count⟩)

/-- Nothing is left of either stream. -/
def isDone (s : SwitchLoop α β) : Bool := s.outer.isNone && s.inner.isNone

/-- Deliveries to the streams that are left. -/
def resume (s : SwitchLoop α β) (now : Snapshot) (deliveries : List Delivery) : SwitchLoop α β where
  outer := s.outer.map fun w => w.rest.resume now deliveries
  inner := s.inner.map fun w => w.rest.resume now deliveries
  count := s.count

variable {stream : α → Stream β} {now : Snapshot} {place : Place}

/-- The loop is run until nothing is ready. -/
inductive Drains (stream : α → Stream β) (now : Snapshot) (place : Place) :
    SwitchLoop α β → List (Event β) → SwitchLoop α β → Prop where
  | waits {s t : SwitchLoop α β} {calls : List FinderCall} :
    turn stream now place s = (calls, .waits, t) → Drains stream now place s (calls.map .call) t
  | item {s s' t : SwitchLoop α β} {calls : List FinderCall} {b : β} {events : List (Event β)} :
    turn stream now place s = (calls, .item b, s') → Drains stream now place s' events t →
    Drains stream now place s (calls.map .call ++ .item b :: events) t
  | again {s s' t : SwitchLoop α β} {calls : List FinderCall} {events : List (Event β)} :
    turn stream now place s = (calls, .again, s') → Drains stream now place s' events t →
    Drains stream now place s (calls.map .call ++ events) t

namespace Drains

variable {s t : SwitchLoop α β} {events : List (Event β)}

theorem unique (h : Drains stream now place s events t) {events' : List (Event β)}
    {t' : SwitchLoop α β} (h' : Drains stream now place s events' t') :
    events = events' ∧ t = t' := by
  induction h generalizing events' t' with
  | waits hs =>
    cases h' with
    | waits hs' =>
      cases hs.symm.trans hs'
      exact ⟨rfl, rfl⟩
    | item hs' _ => cases hs.symm.trans hs'
    | again hs' _ => cases hs.symm.trans hs'
  | item hs _ ih =>
    cases h' with
    | waits hs' => cases hs.symm.trans hs'
    | item hs' h' =>
      cases hs.symm.trans hs'
      obtain ⟨rfl, rfl⟩ := ih h'
      exact ⟨rfl, rfl⟩
    | again hs' _ => cases hs.symm.trans hs'
  | again hs _ ih =>
    cases h' with
    | waits hs' => cases hs.symm.trans hs'
    | item hs' _ => cases hs.symm.trans hs'
    | again hs' h' =>
      cases hs.symm.trans hs'
      obtain ⟨rfl, rfl⟩ := ih h'
      exact ⟨rfl, rfl⟩

/-- One more call before the first turn. -/
theorem call {s' : SwitchLoop α β} {c : FinderCall}
    (hturn : turn stream now place s' =
      (c :: (turn stream now place s).1, (turn stream now place s).2))
    (h : Drains stream now place s events t) :
    Drains stream now place s' (.call c :: events) t := by
  cases h with
  | waits hs =>
    rw [hs] at hturn
    exact .waits hturn
  | item hs h =>
    rw [hs] at hturn
    exact .item hturn h
  | again hs h =>
    rw [hs] at hturn
    exact .again hturn h

end Drains

/-! ## The loop and the switch -/

theorem turn_inner_call (outer : Option (Flow α)) (c : FinderCall) (events : List (Event β))
    (r : Rest β) (count : Nat) :
    turn stream now place ⟨outer, some ⟨.call c :: events, r⟩, count⟩ =
      (c :: (turn stream now place ⟨outer, some ⟨events, r⟩, count⟩).1,
        (turn stream now place ⟨outer, some ⟨events, r⟩, count⟩).2) := by
  rw [turn, turn, Flow.poll_call]
  rcases poll (some ⟨events, r⟩) with ⟨calls, _ | b, inner⟩
  · rcases poll outer with ⟨more, _ | a, outer⟩ <;> rfl
  · rfl

/-- A call of the outer stream comes after the inner stream has nothing more. -/
theorem turn_outer_call {inner : Option (Flow β)} {r : Rest β}
    (hinner : poll inner = ([], none, idle r)) (c : FinderCall) (events : List (Event α))
    (outer : Rest α) (count : Nat) :
    turn stream now place ⟨some ⟨.call c :: events, outer⟩, inner, count⟩ =
      (c :: (turn stream now place ⟨some ⟨events, outer⟩, inner, count⟩).1,
        (turn stream now place ⟨some ⟨events, outer⟩, inner, count⟩).2) := by
  simp only [turn, hinner, Flow.poll_call]
  rcases poll (some ⟨events, outer⟩) with ⟨calls, _ | a, outer⟩ <;> rfl

/-- The inner stream comes first. -/
theorem drains_inner {outer : Option (Flow α)} {count : Nat} {events : List (Event β)}
    {t : SwitchLoop α β} (w : Flow β)
    (h : Drains stream now place ⟨outer, some ⟨[], w.rest⟩, count⟩ events t) :
    Drains stream now place ⟨outer, some w, count⟩ (w.events ++ events) t := by
  obtain ⟨inside, r⟩ := w
  induction inside with
  | nil => exact h
  | cons e rest ih =>
    cases e with
    | item b =>
      have hturn : turn stream now place ⟨outer, some ⟨.item b :: rest, r⟩, count⟩ =
        ([], .item b, ⟨outer, some ⟨rest, r⟩, count⟩) := rfl
      exact .item hturn (ih h)
    | call c => exact .call (turn_inner_call outer c rest r count) (ih h)

theorem drains_silent {outer : Option (Flow α)} {inner : Option (Flow β)} {r : Rest α}
    {r' : Rest β} (houter : poll outer = ([], none, idle r))
    (hinner : poll inner = ([], none, idle r')) (count : Nat) :
    Drains stream now place ⟨outer, inner, count⟩ [] ⟨idle r, idle r', count⟩ := by
  have hturn : turn stream now place ⟨outer, inner, count⟩ =
      ([], .waits, ⟨idle r, idle r', count⟩) := by
    simp only [turn, hinner, houter, List.append_nil]
  have hdrains := Drains.waits hturn
  exact hdrains

/-- The outer items follow, each with its stream. -/
theorem drains_outer {inner : Option (Flow β)} {r : Rest β}
    (hinner : poll inner = ([], none, idle r)) (outer : Option (Flow α)) (count : Nat) :
    let w := Switch.follow (fun a p => stream a now p) place (ofOption outer).events count r
    Drains stream now place ⟨outer, inner, count⟩ w.1
      ⟨idle (ofOption outer).rest, idle w.2.2, w.2.1⟩ := by
  cases outer with
  | none => exact drains_silent rfl hinner count
  | some outer =>
    obtain ⟨events, rest⟩ := outer
    induction events generalizing inner r count with
    | nil => exact drains_silent rfl hinner count
    | cons e events ih =>
      cases e with
      | call c => exact .call (turn_outer_call hinner c events rest count) (ih hinner count)
      | item a =>
        let w := stream a now ((count + 1) :: place)
        have hturn : turn stream now place ⟨some ⟨.item a :: events, rest⟩, inner, count⟩ =
            ([], .again, ⟨some ⟨events, rest⟩, some w, count + 1⟩) := by
          rw [turn, hinner]
          rfl
        have hsilent : poll (some ⟨[], w.rest⟩) = ([], none, idle w.rest) := rfl
        exact .again hturn (drains_inner w (ih hsilent (count + 1)))

/-- Polling a switch gives the events of the switch. -/
theorem drains (stream : α → Stream β) (now : Snapshot) (place : Place) (outer : Option (Flow α))
    (inner : Option (Flow β)) (count : Nat) :
    ∃ last count', Drains stream now place ⟨outer, inner, count⟩
        (Flow.switch stream now place count (ofOption outer) (ofOption inner)).events
        ⟨idle (ofOption outer).rest, idle last, count'⟩ ∧
      (Flow.switch stream now place count (ofOption outer) (ofOption inner)).rest =
        .switch stream place count' (ofOption outer).rest last := by
  refine ⟨_, _, ?_, rfl⟩
  cases inner with
  | none => exact drains_outer rfl outer count
  | some w =>
    have hsilent : poll (some ⟨[], w.rest⟩) = ([], none, idle w.rest) := rfl
    exact drains_inner w (drains_outer hsilent outer count)

/-! ## The loop over deliveries -/

/-- The loop stands for a switch at rest. -/
def Follows (stream : α → Stream β) (place : Place) (s : SwitchLoop α β) (r : Rest β) : Prop :=
  ∃ outer inner, s.outer = idle outer ∧ s.inner = idle inner ∧
    r = .switch stream place s.count outer inner

/-- From the state `s` the loop gives the events of a flow, and stands for its rest then. -/
def Gives (stream : α → Stream β) (now : Snapshot) (place : Place) (s : SwitchLoop α β)
    (w : Flow β) : Prop :=
  ∃ t, Follows stream place t w.rest ∧
    ∀ events t', Drains stream now place s events t' ↔ events = w.events ∧ t' = t

theorem gives (outer : Option (Flow α)) (inner : Option (Flow β)) (count : Nat) :
    Gives stream now place ⟨outer, inner, count⟩
      (.switch stream now place count (ofOption outer) (ofOption inner)) := by
  obtain ⟨last, count', hdrains, hrest⟩ := drains stream now place outer inner count
  refine ⟨_, ⟨_, last, rfl, rfl, hrest⟩, fun events t' => ⟨fun h => h.unique hdrains, ?_⟩⟩
  rintro ⟨rfl, rfl⟩
  exact hdrains

theorem gives_switchMap (source : Stream α) (stream : α → Stream β) (now : Snapshot)
    (place : Place) : Gives stream now place ⟨some (source now (0 :: place)), none, 0⟩
      (source.switchMap stream now place) := gives _ _ _

namespace Follows

variable {s : SwitchLoop α β} {r : Rest β}

theorem isDone_eq (h : Follows stream place s r) : s.isDone = r.isEnded := by
  obtain ⟨outer, inner, houter, hinner, rfl⟩ := h
  rw [isDone, houter, hinner, idle, idle, Rest.isEnded_switch]
  cases outer.isEnded <;> cases inner.isEnded <;> rfl

/-- Deliveries to the streams of the loop are deliveries to the switch. -/
theorem resume (h : Follows stream place s r) (now : Snapshot) (deliveries : List Delivery) :
    Gives stream now place (s.resume now deliveries) (r.resume now deliveries) := by
  obtain ⟨outer, inner, houter, hinner, rfl⟩ := h
  have hidle {γ : Type} (rest : Rest γ) :
      ofOption ((idle rest).map fun w => w.rest.resume now deliveries) =
        rest.resume now deliveries := by
    rw [idle]
    split
    · rename_i hended
      rw [Rest.eq_ended_of_isEnded hended, Rest.resume]
      rfl
    · rfl
  rw [Rest.resume_switch, ← hidle outer, ← hidle inner, SwitchLoop.resume, houter, hinner]
  exact gives _ _ _

end Follows
end SwitchLoop
end PolicyDecision
