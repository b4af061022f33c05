import PolicyDecision.Value

/-!
# PolicyDecision.Stream.Flow

Streams of items that change over time.

Between two deliveries nothing changes, so what a stream does until it has to wait is a finite
list of events. After these it rests: it has ended, or some of the subscriptions in it wait for a
delivery.

* `Snapshot`: what is known of the live sources; it stays the same during one flow.
* `Event`: an item, or the call of an attribute finder.
* `Rest`: a stream that waits, as the tree of what its subscriptions feed.
* `Flow`: the events of a stream up to its rest.
* `Stream`: a stream before it is subscribed; it starts at a place under a snapshot.
-/

namespace PolicyDecision

/-- A live source: what a new subscription receives at once, and whether nothing follows. -/
structure SourceState where
  backlog : List Val := []
  closed : Bool := false

abbrev Snapshot := String → SourceState

/-- A place in a stream, from the innermost position to the outermost one. -/
abbrev Place := List Nat

/-- A subscription of a live source at a place. -/
structure Feed where
  place : Place
  source : String
deriving DecidableEq

/-- The call of an attribute finder at a place. -/
structure FinderCall where
  name : String
  parent : Val
  arguments : List Val
  place : Place

/-- How a call is written. -/
def FinderCall.text (c : FinderCall) : String :=
  c.name ++ "(" ++ c.parent.text ++ "; " ++ ", ".intercalate (c.arguments.map Val.text) ++ ")"

inductive Event (α : Type) where
  | call (c : FinderCall)
  | item (a : α)

namespace Event

variable {α β : Type}

def map (f : α → β) : Event α → Event β
  | .call c => .call c
  | .item a => .item (f a)

def item? : Event α → Option α
  | .call _ => none
  | .item a => some a

def call? : Event α → Option FinderCall
  | .call c => some c
  | .item _ => none

/-- The items among events. -/
def items (events : List (Event α)) : List α := events.filterMap item?

def calls (events : List (Event α)) : List FinderCall := events.filterMap call?

end Event

/-- What reaches a subscription. -/
inductive Signal where
  | value (v : Val)
  | closed

/-- A stream at rest.

* `ended`: nothing follows.
* `awaiting`: a subscription, at a place of its own.
* `mapped`: every item is changed.
* `combined`: the latest items of several streams, as long as all of them have one.
* `switched`: the stream that belongs to the latest outer item; the next item leaves it. The
  stream of an item is held by its events and its rest, the number of items so far by `count`.
* `firstOf`: the first item only. -/
inductive Rest : Type → Type 1 where
  | ended {α : Type} : Rest α
  | awaiting {α : Type} (feed : Feed) (read : Val → α) : Rest α
  | mapped {α β : Type} (f : α → β) (source : Rest α) : Rest β
  | combined {α β : Type} (f : List α → β) (latest : List (Option α)) (size : Nat)
      (sources : Fin size → Rest α) : Rest β
  | switched {α β : Type} (events : α → Snapshot → Place → List (Event β))
      (rests : α → Snapshot → Place → Rest β) (place : Place) (count : Nat)
      (outer : Rest α) (inner : Rest β) : Rest β
  | firstOf {α : Type} (source : Rest α) : Rest α

structure Flow (α : Type) : Type 1 where
  events : List (Event α)
  rest : Rest α

abbrev Stream (α : Type) : Type 1 := Snapshot → Place → Flow α

namespace Rest

variable {α : Type}

instance : Inhabited (Rest α) := ⟨ended⟩

def isEnded : Rest α → Bool
  | .ended => true
  | _ => false

/-- The subscriptions that wait for a delivery. -/
def feeds : {α : Type} → Rest α → List Feed
  | _, .ended => []
  | _, .awaiting feed _ => [feed]
  | _, .mapped _ source => source.feeds
  | _, .combined _ _ _ sources => (List.ofFn fun i => (sources i).feeds).flatten
  | _, .switched _ _ _ _ outer inner => outer.feeds ++ inner.feeds
  | _, .firstOf source => source.feeds

theorem eq_ended_of_isEnded {r : Rest α} (h : r.isEnded = true) : r = .ended := by
  cases r <;> first
    | rfl
    | cases h

theorem feeds_of_isEnded {r : Rest α} (h : r.isEnded = true) : r.feeds = [] := by
  rw [eq_ended_of_isEnded h, feeds]

/-- The same stream with every item changed. -/
def map {β : Type} (f : α → β) (r : Rest α) : Rest β :=
  if r.isEnded then .ended else .mapped f r

/-- The stream up to its first item. -/
def first (r : Rest α) : Rest α :=
  if r.isEnded then .ended else .firstOf r

end Rest

namespace Flow

variable {α β : Type}

instance : Inhabited (Flow α) := ⟨⟨[], .ended⟩⟩

def items (w : Flow α) : List α := Event.items w.events

def calls (w : Flow α) : List FinderCall := Event.calls w.events

/-- One item, then the end. -/
def just (a : α) : Flow α := ⟨[.item a], .ended⟩

def ofList (items : List α) : Flow α := ⟨items.map .item, .ended⟩

def map (f : α → β) (w : Flow α) : Flow β := ⟨w.events.map (Event.map f), w.rest.map f⟩

/-- The events up to the first item, and whether there is one. -/
def cut : List (Event α) → List (Event α) × Bool
  | [] => ([], false)
  | .item a :: _ => ([.item a], true)
  | .call c :: rest =>
    let (events, found) := cut rest
    (.call c :: events, found)

/-- The flow up to its first item, which ends it and drops all of its subscriptions. -/
def first (w : Flow α) : Flow α :=
  let (events, found) := cut w.events
  ⟨events, if found then .ended else w.rest.first⟩

end Flow
end PolicyDecision
