import PolicyDecision.Stream.Flow

/-!
# PolicyDecision.Stream.Switch

Switching to the stream of the latest outer item.

What the inner stream has ready is taken before the next outer item; that item drops the inner
stream, also one that waits.

* `Switch.follow`: the events of an outer flow, each item followed by the events of its stream.
* `Flow.switch`, `Stream.switchMap`.
-/

namespace PolicyDecision

namespace Switch

variable {α β : Type}

/-- The events of an outer flow with the flows of its items, and the number of items and the inner
stream after them. The flow of the `n`-th item starts at the place `n :: place`. -/
def follow (stream : α → Place → Flow β) (place : Place) :
    List (Event α) → Nat → Rest β → List (Event β) × Nat × Rest β
  | [], count, inner => ([], count, inner)
  | .call c :: rest, count, inner =>
    let (events, last) := follow stream place rest count inner
    (.call c :: events, last)
  | .item a :: rest, count, _ =>
    let w := stream a ((count + 1) :: place)
    let (events, last) := follow stream place rest (count + 1) w.rest
    (w.events ++ events, last)

end Switch

namespace Rest

variable {α β : Type}

/-- A switch ends when the outer stream and the inner one have ended. -/
def switch (stream : α → Stream β) (place : Place) (count : Nat) (outer : Rest α)
    (inner : Rest β) : Rest β :=
  if outer.isEnded && inner.isEnded then .ended
  else
    .switched (fun a now p => (stream a now p).events) (fun a now p => (stream a now p).rest)
      place count outer inner

end Rest

/-- Let an outer flow go on after the events of the inner stream. -/
def Flow.switch {α β : Type} (stream : α → Stream β) (now : Snapshot) (place : Place)
    (count : Nat) (outer : Flow α) (inner : Flow β) : Flow β :=
  let (events, count, last) :=
    Switch.follow (fun a p => stream a now p) place outer.events count inner.rest
  ⟨inner.events ++ events, .switch stream place count outer.rest last⟩

/-- The outer stream has the place `0 :: place`. -/
def Stream.switchMap {α β : Type} (source : Stream α) (stream : α → Stream β) : Stream β :=
  fun now place =>
    Flow.switch stream now place 0 (source now (0 :: place)) ⟨[], .ended⟩

end PolicyDecision
