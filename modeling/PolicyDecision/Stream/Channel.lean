import PolicyDecision.Stream.Resume

/-!
# PolicyDecision.Stream.Channel

Streams over channels that are written in batches.

Channel `n` is the live source with that number as its name. Before its receiver is handed out it
keeps what is sent; a receiver that was dropped gets nothing. All events of a batch take place
before the stream goes on.

* `ChannelRun.start`, `ChannelRun.apply`: a stream over channels, and a batch.
* `Channel.combined`, `Channel.first`, `Channel.switching`: the streams.
-/

namespace PolicyDecision

/-- A send to a channel, or its closing. -/
structure ChannelEvent where
  channel : Nat
  sent : Option Json

namespace Channel

def source (channel : Nat) : String := toString channel

def stream (channel : Nat) : Stream Val := .live (source channel)

/-- The latest items of all channels. -/
def combined (count : Nat) : Stream (List Val) :=
  .combineLatest ((List.range count).map stream) id

def first : Stream Val := (stream 0).first

/-- The items of channel 0 say which channel is followed; an undefined one is an empty stream. -/
def switching : Stream Val :=
  (stream 0).switchMap fun v =>
    match v.number?.bind Number.nat? with
    | some n => stream n
    | none => .ofList []

end Channel

structure ChannelRun (α : Type) : Type 1 where
  count : Nat
  rest : Rest α
  closed : List Nat
  /-- Channels whose receiver has been handed out. -/
  taken : List Nat
  backlog : Nat → List Val

namespace ChannelRun

variable {α : Type}

def snapshot (run : ChannelRun α) : Snapshot := fun name =>
  match name.toNat? with
  | some n => ⟨run.backlog n, run.closed.contains n⟩
  | none => {}

def start (stream : Stream α) (count : Nat) (taken : List Nat) : ChannelRun α × Flow α :=
  let run : ChannelRun α := ⟨count, .ended, [], taken, fun _ => []⟩
  let w := stream run.snapshot []
  ({ run with rest := w.rest }, w)

def feed? (run : ChannelRun α) (channel : Nat) : Option Feed :=
  run.rest.feeds.find? fun f => f.source == Channel.source channel

/-- Whether a send to a channel can still be received. A stream that has ended drops the receivers
that it has not handed out. -/
def isOpen (run : ChannelRun α) (channel : Nat) : Bool :=
  !run.closed.contains channel && !run.rest.isEnded &&
    ((run.feed? channel).isSome || !run.taken.contains channel)

/-- The item of a switch as it is received: the number of a channel that is there and was not handed
out before, which is handed out now; undefined otherwise. -/
def choose (run : ChannelRun α) (promised : List Nat) (item : Json) : Val × List Nat :=
  match item.number?.bind Number.nat? with
  | some n =>
    if n < run.count && !promised.contains n then (.defined item, n :: promised)
    else (.undefined, promised)
  | none => (.undefined, promised)

/-- An item as it is received. With `choosing` the items of channel 0 hand out channels. -/
def read (run : ChannelRun α) (choosing : Bool) (promised : List Nat) (channel : Nat) (item : Json) :
    Val × List Nat :=
  if choosing && channel == 0 then run.choose promised item else (.defined item, promised)

/-- What the events of a batch lead to: the run after them, the channels that are handed out then, and
the deliveries to the receivers that were open before. -/
structure Intake (α : Type) : Type 1 where
  after : ChannelRun α
  promised : List Nat
  deliveries : List Delivery := []

/-- One event of a batch; that of a closed channel is passed over. What is sent to a channel that was
not handed out is kept. -/
def receive (run : ChannelRun α) (choosing : Bool) (i : Intake α) (e : ChannelEvent) : Intake α :=
  if i.after.closed.contains e.channel then i
  else
    match e.sent with
    | none =>
      let closing := (run.feed? e.channel).map fun f => ⟨f.place, .closed⟩
      { i with
        after := { i.after with closed := e.channel :: i.after.closed }
        deliveries := i.deliveries ++ closing.toList }
    | some item =>
      let (v, promised) := run.read choosing i.promised e.channel item
      match run.feed? e.channel with
      | some f => { i with promised, deliveries := i.deliveries ++ [⟨f.place, .value v⟩] }
      | none =>
        if run.taken.contains e.channel then { i with promised }
        else
          let backlog := fun n => i.after.backlog n ++ if n = e.channel then [v] else []
          { i with promised, after := { i.after with backlog } }

def collect (run : ChannelRun α) (choosing : Bool) (batch : List ChannelEvent) : Intake α :=
  batch.foldl (run.receive choosing) { after := run, promised := run.taken }

def apply (run : ChannelRun α) (choosing : Bool) (batch : List ChannelEvent) :
    ChannelRun α × Flow α :=
  let i := run.collect choosing batch
  let w := run.rest.resume i.after.snapshot i.deliveries
  ({ i.after with rest := w.rest, taken := i.promised }, w)

end ChannelRun
end PolicyDecision
