import PolicyDecision.Stream.Combine
import PolicyDecision.Stream.Switch
import PolicyDecision.Fault

/-!
# PolicyDecision.Stream.Resume

What a stream at rest does when something is delivered to its subscriptions.

* `Delivery`: a signal for the subscription at a place.
* `Rest.resume`: the flow that the deliveries set off.
* `Stream.just`, `Stream.live`, `Stream.map`, `Stream.first`: the remaining streams.
-/

namespace PolicyDecision

structure Delivery where
  place : Place
  signal : Signal

namespace Delivery

/-- The items of a subscription up to its closing, and whether it was closed. -/
def received (place : Place) : List Delivery → List Val × Bool
  | [] => ([], false)
  | d :: rest =>
    if d.place = place then
      match d.signal with
      | .closed => ([], true)
      | .value v =>
        let (values, closed) := received place rest
        (v :: values, closed)
    else received place rest

/-- The number of the first stream that waits at the place. -/
def target? (waiting : List (List Feed)) (d : Delivery) : Option Nat :=
  waiting.findIdx? fun feeds => feeds.any fun f => f.place == d.place

/-- The streams that deliveries wake, in the order of their first wake. -/
def woken (waiting : List (List Feed)) (deliveries : List Delivery) : List Nat :=
  (deliveries.filterMap (target? waiting)).eraseDups

end Delivery

/-- Resume a stream at rest. A subscription receives its deliveries in order; in a combination the
streams are ready in the order in which they were woken; in a switch the inner stream goes on
before the outer one. -/
def Rest.resume (now : Snapshot) (deliveries : List Delivery) : {α : Type} → Rest α → Flow α
  | _, .ended => ⟨[], .ended⟩
  | _, .awaiting feed read =>
    let (values, closed) := Delivery.received feed.place deliveries
    ⟨values.map fun v => .item (read v), if closed then .ended else .awaiting feed read⟩
  | _, .mapped f source => (source.resume now deliveries).map f
  | _, .combined f latest _ sources =>
    let waiting := List.ofFn fun i => (sources i).feeds
    let flows := List.ofFn fun i => (sources i).resume now deliveries
    Flow.combine f latest flows (Delivery.woken waiting deliveries)
  | _, .switched events rests place count outer inner =>
    Flow.switch (fun a now p => ⟨events a now p, rests a now p⟩) now place count
      (outer.resume now deliveries) (inner.resume now deliveries)
  | _, .firstOf source => (source.resume now deliveries).first

namespace Stream

variable {α β : Type}

def just (a : α) : Stream α := fun _ _ => .just a

def ofList (items : List α) : Stream α := fun _ _ => .ofList items

/-- A live source: its backlog, then what is delivered. -/
def live (source : String) : Stream Val := fun now place =>
  let state := now source
  ⟨state.backlog.map .item, if state.closed then .ended else .awaiting ⟨place, source⟩ id⟩

def map (f : α → β) (source : Stream α) : Stream β := fun now place => (source now place).map f

def first (source : Stream α) : Stream α := fun now place => (source now place).first

end Stream

/-- A stream of one error. -/
def Stream.fault (f : Fault) : Stream Val := .just (.fault f)

end PolicyDecision
