import PolicyDecision.Stream.Resume

/-!
# PolicyDecision.Stream.Session

A stream that is followed while live sources change.

* `Session.start`: subscribe a stream.
* `Session.push`, `Session.close`: change a source and deliver the change to the subscriptions that
  are open then, one after the other in the order in which they were made; one that is dropped
  meanwhile is passed over.
* `Session.cancel`: drop the stream.
-/

namespace PolicyDecision

structure Session (α : Type) : Type 1 where
  now : Snapshot
  rest : Rest α
  /-- The open subscriptions in the order in which they were made. -/
  feeds : List Feed
  /-- All finder calls so far. -/
  calls : List FinderCall
  done : Bool

namespace Session

variable {α : Type}

/-- The subscriptions that are still open after a flow, and those that the flow made. -/
def settle (feeds : List Feed) (w : Flow α) : List Feed :=
  let waiting := w.rest.feeds
  feeds.filter (waiting.contains ·) ++
    w.calls.filterMap fun c => waiting.find? fun f => f.place == c.place

def start (stream : Stream α) (now : Snapshot) : Session α × List α :=
  let w := stream now []
  (⟨now, w.rest, settle [] w, w.calls, w.rest.isEnded⟩, w.items)

/-- Resume the stream, unless the subscription was dropped. -/
def deliver (signal : Signal) (s : Session α) (feed : Feed) : Session α × List α :=
  if s.feeds.contains feed then
    let w := s.rest.resume s.now [⟨feed.place, signal⟩]
    ({ s with rest := w.rest, feeds := settle s.feeds w, calls := s.calls ++ w.calls,
              done := w.rest.isEnded }, w.items)
  else (s, [])

def deliverAll (signal : Signal) (s : Session α) : List Feed → Session α × List α
  | [] => (s, [])
  | feed :: rest =>
    let (s, first) := s.deliver signal feed
    let (s, more) := s.deliverAll signal rest
    (s, first ++ more)

/-- The open subscriptions of a source. -/
def feedsOf (s : Session α) (source : String) : List Feed :=
  s.feeds.filter fun f => f.source == source

def setSource (s : Session α) (source : String) (state : SourceState) : Session α :=
  { s with now := fun name => if name = source then state else s.now name }

/-- A new latest value; a closed source delivers it to nobody. -/
def push (s : Session α) (source : String) (value : Val) : Session α × List α :=
  let state := s.now source
  let s := s.setSource source { state with backlog := [value] }
  if state.closed then (s, []) else s.deliverAll (.value value) (s.feedsOf source)

def close (s : Session α) (source : String) : Session α × List α :=
  let s := s.setSource source { s.now source with closed := true }
  s.deliverAll .closed (s.feedsOf source)

def cancel (s : Session α) : Session α := { s with rest := .ended, feeds := [] }

/-- The number of open subscriptions of a source. -/
def openCount (s : Session α) (source : String) : Nat := (s.feedsOf source).length

end Session
end PolicyDecision
