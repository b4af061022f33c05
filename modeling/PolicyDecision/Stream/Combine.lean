import PolicyDecision.Stream.Flow

/-!
# PolicyDecision.Stream.Combine

Combining the latest items of several streams.

The streams are taken in turn from a first-in first-out list of those that are ready: a stream
that gave an item goes to the end of the list, one that has nothing more leaves it.

* `Combine.nextItem`: the events of a stream up to its next item.
* `Combine.interleave`: the events of all streams in the order in which they are taken.
* `Combine.scan`: a combination for every item taken once all streams have given one.
* `Flow.combine`, `Stream.combineLatest`.
-/

namespace PolicyDecision
namespace Combine

variable {α β : Type}

/-- The calls before the next item, and the item with the events after it. -/
def nextItem : List (Event α) → List FinderCall × Option (α × List (Event α))
  | [] => ([], none)
  | .item a :: rest => ([], some (a, rest))
  | .call c :: rest =>
    let (calls, next) := nextItem rest
    (c :: calls, next)

theorem nextItem_length {events rest : List (Event α)} {a : α}
    (h : (nextItem events).2 = some (a, rest)) : rest.length < events.length := by
  induction events with
  | nil => simp [nextItem] at h
  | cons e es ih =>
    cases e with
    | item b =>
      simp only [nextItem, Option.some.injEq, Prod.mk.injEq] at h
      simp [h.2]
    | call c =>
      simp only [nextItem] at h
      exact Nat.lt_succ_of_lt (ih h)

/-- An upper bound of the number of turns that the ready streams take. -/
def turns (ready : List (Nat × List (Event α))) : Nat :=
  (ready.flatMap (·.2)).length + ready.length

/-- Take the ready streams in turn. Items carry the number of their stream. -/
def interleave (ready : List (Nat × List (Event α))) : List (Event (Nat × α)) :=
  match ready with
  | [] => []
  | (i, events) :: others =>
    match _h : nextItem events with
    | (calls, some (a, rest)) =>
      calls.map .call ++ .item (i, a) :: interleave (others ++ [(i, rest)])
    | (calls, none) => calls.map .call ++ interleave others
termination_by turns ready
decreasing_by
  · have := nextItem_length (congrArg Prod.snd _h)
    simp only [turns, List.flatMap_append, List.flatMap_cons, List.flatMap_nil, List.length_append,
      List.length_cons, List.length_nil]
    omega
  · simp only [turns, List.flatMap_cons, List.length_append, List.length_cons]
    omega

/-- The items of a list all of which are there. -/
def allPresent : List (Option α) → Option (List α)
  | [] => some []
  | none :: _ => none
  | some a :: rest => (allPresent rest).map (a :: ·)

/-- Keep the latest item of every stream; emit a combination for each item once all have one. -/
def scan (f : List α → β) :
    List (Event (Nat × α)) → List (Option α) → List (Event β) × List (Option α)
  | [], latest => ([], latest)
  | .call c :: rest, latest =>
    let (events, last) := scan f rest latest
    (.call c :: events, last)
  | .item (i, a) :: rest, latest =>
    let latest := latest.set i (some a)
    let (events, last) := scan f rest latest
    match allPresent latest with
    | some values => (.item (f values) :: events, last)
    | none => (events, last)

end Combine

namespace Rest

variable {α β : Type}

/-- A combination ends when all of its streams have ended. -/
def combine (f : List α → β) (latest : List (Option α)) (sources : List (Rest α)) : Rest β :=
  if sources.all isEnded then .ended
  else .combined f latest sources.length fun i => sources[i]

end Rest

/-- Let several streams go on that have given `latest` so far; `ready` lists those to be taken, in
order. -/
def Flow.combine {α β : Type} (f : List α → β) (latest : List (Option α)) (sources : List (Flow α))
    (ready : List Nat) : Flow β :=
  let queue := ready.map fun i => (i, ((sources[i]?).map Flow.events).getD [])
  let (events, latest) := Combine.scan f (Combine.interleave queue) latest
  ⟨events, .combine f latest (sources.map Flow.rest)⟩

/-- The streams stand at the places `0 :: place`, `1 :: place`, …; without streams there is one
combination, of nothing. -/
def Stream.combineLatest {α β : Type} (sources : List (Stream α)) (f : List α → β) : Stream β :=
  fun now place =>
    if sources.isEmpty then .just (f [])
    else
      Flow.combine f (List.replicate sources.length none)
        (sources.mapIdx fun i source => source now (i :: place)) (List.range sources.length)

end PolicyDecision
