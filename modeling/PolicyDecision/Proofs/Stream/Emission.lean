import PolicyDecision.Stream.Session

/-!
# PolicyDecision.Proofs.Stream.Emission

Which items a stream can give, whatever its subscriptions receive.

The items of a combination or of a changed stream are those of its function, and the items of a
switch are those of its inner streams. So it does not matter which items the streams inside give.

* `Session.Turn`, `Session.run`: sources that change while a stream is followed.
* `Rest.Yields`, `Flow.Yields`: all items, now and later, have a property.
* `Rest.Yields.resume`: one resumption keeps it.
* `Stream.Yields.run`: so do all turns.
-/

namespace PolicyDecision

variable {α β : Type} {p : β → Prop}

namespace Session

/-- What can happen while a stream is followed. -/
inductive Turn where
  | push (source : String) (value : Val)
  | close (source : String)
  | cancel

def turn (s : Session α) : Turn → Session α × List α
  | .push source value => s.push source value
  | .close source => s.close source
  | .cancel => (s.cancel, [])

def turnAll (s : Session α) : List Turn → Session α × List α
  | [] => (s, [])
  | t :: rest =>
    let (s, first) := s.turn t
    let (s, more) := s.turnAll rest
    (s, first ++ more)

/-- The session after some turns, and all items. -/
def run (stream : Stream α) (now : Snapshot) (turns : List Turn) : Session α × List α :=
  let (s, first) := start stream now
  let (s, more) := s.turnAll turns
  (s, first ++ more)

end Session

/-! ## Streams at rest -/

/-- Every item that may still come has the property. -/
inductive Rest.Yields (p : β → Prop) : Rest β → Prop where
  | ended : Yields p .ended
  | awaiting {feed : Feed} {read : Val → β} (h : ∀ v, p (read v)) : Yields p (.awaiting feed read)
  | mapped {α : Type} {f : α → β} {source : Rest α} (h : ∀ a, p (f a)) : Yields p (.mapped f source)
  | combined {α : Type} {f : List α → β} {latest : List (Option α)} {size : Nat}
      {sources : Fin size → Rest α} (h : ∀ values, p (f values)) :
      Yields p (.combined f latest size sources)
  | switched {α : Type} {events : α → Snapshot → Place → List (Event β)}
      {rests : α → Snapshot → Place → Rest β} {place : Place} {count : Nat} {outer : Rest α}
      {inner : Rest β} (hevents : ∀ a now place, ∀ b ∈ Event.items (events a now place), p b)
      (hrests : ∀ a now place, Yields p (rests a now place)) (hinner : Yields p inner) :
      Yields p (.switched events rests place count outer inner)
  | firstOf {source : Rest β} (h : Yields p source) : Yields p (.firstOf source)

/-- The items have the property, and those that follow. -/
structure Flow.Yields (p : β → Prop) (w : Flow β) : Prop where
  items : ∀ b ∈ w.items, p b
  rest : w.rest.Yields p

namespace Event

theorem items_append (l₁ l₂ : List (Event α)) : items (l₁ ++ l₂) = items l₁ ++ items l₂ := by
  simp [items]

theorem items_map (f : α → β) (events : List (Event α)) :
    items (events.map (Event.map f)) = (items events).map f := by
  induction events with
  | nil => rfl
  | cons e rest ih =>
    cases e with
    | call c => exact ih
    | item a => exact congrArg (f a :: ·) ih

theorem items_map_item (l : List α) : items (l.map .item) = l := by
  induction l with
  | nil => rfl
  | cons a rest ih => exact congrArg (a :: ·) ih

theorem items_calls (calls : List FinderCall) (events : List (Event α)) :
    items (calls.map .call ++ events) = items events := by
  induction calls with
  | nil => rfl
  | cons c rest ih => exact ih

end Event

/-! ## Flows -/

namespace Flow

theorem yields_map {f : α → β} (h : ∀ a, p (f a)) (w : Flow α) : (w.map f).Yields p where
  items := by
    intro b hb
    rw [Flow.items, Flow.map, Event.items_map] at hb
    obtain ⟨a, _, rfl⟩ := List.mem_map.1 hb
    exact h a
  rest := by
    show (w.rest.map f).Yields p
    rw [Rest.map]
    split
    · exact .ended
    · exact .mapped h

theorem items_scan {f : List α → β} (h : ∀ values, p (f values)) (taken : List (Event (Nat × α)))
    (latest : List (Option α)) : ∀ b ∈ Event.items (Combine.scan f taken latest).1, p b := by
  induction taken generalizing latest with
  | nil => nofun
  | cons e rest ih =>
    cases e with
    | call c => exact ih latest
    | item a =>
      rw [Combine.scan]
      dsimp only
      split
      · intro b hb
        rcases List.mem_cons.1 hb with rfl | hb
        · exact h _
        · exact ih _ b hb
      · exact ih _

theorem yields_combine {f : List α → β} (h : ∀ values, p (f values)) (latest : List (Option α))
    (sources : List (Flow α)) (ready : List Nat) : (combine f latest sources ready).Yields p where
  items := items_scan h _ _
  rest := by
    show (Rest.combine f _ _).Yields p
    rw [Rest.combine]
    split
    · exact .ended
    · exact .combined h

/-- What the streams of the outer items give, and the one that is followed last. -/
theorem yields_follow {stream : α → Place → Flow β} (h : ∀ a place, (stream a place).Yields p)
    (place : Place) (outer : List (Event α)) (count : Nat) {inner : Rest β}
    (hinner : inner.Yields p) :
    (∀ b ∈ Event.items (Switch.follow stream place outer count inner).1, p b) ∧
      (Switch.follow stream place outer count inner).2.2.Yields p := by
  induction outer generalizing count inner with
  | nil => exact ⟨nofun, hinner⟩
  | cons e rest ih =>
    cases e with
    | call c => exact ih count hinner
    | item a =>
      have hstream := h a ((count + 1) :: place)
      obtain ⟨hitems, hrest⟩ := ih (count + 1) hstream.rest
      refine ⟨fun b hb => ?_, hrest⟩
      rw [Switch.follow, Event.items_append] at hb
      rcases List.mem_append.1 hb with hb | hb
      · exact hstream.items b hb
      · exact hitems b hb

theorem yields_switch {stream : α → Stream β} (h : ∀ a now place, (stream a now place).Yields p)
    (now : Snapshot) (place : Place) (count : Nat) (outer : Flow α) {inner : Flow β}
    (hinner : inner.Yields p) : (switch stream now place count outer inner).Yields p := by
  obtain ⟨hitems, hrest⟩ := yields_follow (fun a place => h a now place) place outer.events count
    hinner.rest
  constructor
  case items =>
    intro b hb
    rw [Flow.items, switch, Event.items_append] at hb
    rcases List.mem_append.1 hb with hb | hb
    · exact hinner.items b hb
    · exact hitems b hb
  case rest =>
    show (Rest.switch stream place _ outer.rest _).Yields p
    rw [Rest.switch]
    split
    · exact .ended
    · exact .switched (fun a now place => (h a now place).items)
        (fun a now place => (h a now place).rest) hrest

theorem items_cut (events : List (Event β)) :
    ∀ b ∈ Event.items (cut events).1, b ∈ Event.items events := by
  induction events with
  | nil => nofun
  | cons e rest ih =>
    cases e with
    | call c => exact ih
    | item a =>
      intro b hb
      obtain rfl : b = a := List.mem_singleton.1 hb
      exact .head _

theorem Yields.first {w : Flow β} (h : w.Yields p) : w.first.Yields p where
  items b hb := h.items b (items_cut _ b hb)
  rest := by
    show (if (cut w.events).2 then Rest.ended else w.rest.first).Yields p
    split
    · exact .ended
    · rw [Rest.first]
      split
      · exact .ended
      · exact .firstOf h.rest

end Flow

/-- Whatever is delivered, the property stays. -/
theorem Rest.Yields.resume {r : Rest β} (h : r.Yields p) (now : Snapshot)
    (deliveries : List Delivery) : (r.resume now deliveries).Yields p := by
  induction h with
  | ended =>
    rw [Rest.resume]
    exact ⟨nofun, .ended⟩
  | @awaiting feed read hread =>
    rw [Rest.resume]
    constructor
    case items =>
      intro b hb
      obtain ⟨e, he, heq⟩ := List.mem_filterMap.1 hb
      obtain ⟨v, _, rfl⟩ := List.mem_map.1 he
      cases heq
      exact hread v
    case rest =>
      dsimp only
      split
      · exact .ended
      · exact .awaiting hread
  | mapped hf =>
    rw [Rest.resume]
    exact Flow.yields_map hf _
  | combined hf =>
    rw [Rest.resume]
    exact Flow.yields_combine hf _ _ _
  | switched hevents hrests _ _ ih =>
    rw [Rest.resume]
    exact Flow.yields_switch (fun a now place => ⟨hevents a now place, hrests a now place⟩) now _ _
      _ ih
  | firstOf _ ih =>
    rw [Rest.resume]
    exact ih.first

/-! ## Streams -/

/-- Every item that the stream can give has the property. -/
def Stream.Yields (p : β → Prop) (stream : Stream β) : Prop :=
  ∀ now place, (stream now place).Yields p

namespace Stream

theorem yields_just {b : β} (h : p b) : (just b).Yields p := by
  intro now place
  refine ⟨fun c hc => ?_, .ended⟩
  obtain rfl : c = b := List.mem_singleton.1 hc
  exact h

theorem yields_combineLatest {f : List α → β} (h : ∀ values, p (f values))
    (sources : List (Stream α)) : (combineLatest sources f).Yields p := by
  intro now place
  rw [combineLatest]
  split
  · exact yields_just (h []) now place
  · exact Flow.yields_combine h _ _ _

theorem yields_switchMap (source : Stream α) {stream : α → Stream β}
    (h : ∀ a, (stream a).Yields p) : (source.switchMap stream).Yields p :=
  fun now place => Flow.yields_switch h now place 0 _ ⟨nofun, .ended⟩

end Stream

namespace Session

theorem yields_deliverAll {s : Session β} (h : s.rest.Yields p) (signal : Signal)
    (feeds : List Feed) :
    (∀ b ∈ (s.deliverAll signal feeds).2, p b) ∧ (s.deliverAll signal feeds).1.rest.Yields p := by
  induction feeds generalizing s with
  | nil => exact ⟨nofun, h⟩
  | cons feed rest ih =>
    have hdeliver : (∀ b ∈ (s.deliver signal feed).2, p b) ∧
        (s.deliver signal feed).1.rest.Yields p := by
      rw [deliver]
      split
      · have hresume := h.resume s.now [⟨feed.place, signal⟩]
        exact ⟨hresume.items, hresume.rest⟩
      · exact ⟨nofun, h⟩
    obtain ⟨hitems, hrest⟩ := ih hdeliver.2
    rw [deliverAll]
    refine ⟨fun b hb => ?_, hrest⟩
    rcases List.mem_append.1 hb with hb | hb
    · exact hdeliver.1 b hb
    · exact hitems b hb

theorem yields_turn {s : Session β} (h : s.rest.Yields p) (t : Turn) :
    (∀ b ∈ (s.turn t).2, p b) ∧ (s.turn t).1.rest.Yields p := by
  cases t with
  | push source value =>
    rw [turn, push]
    split
    · exact ⟨nofun, h⟩
    · exact yields_deliverAll (s := s.setSource source _) h _ _
  | close source => exact yields_deliverAll (s := s.setSource source _) h _ _
  | cancel => exact ⟨nofun, .ended⟩

theorem yields_turnAll {s : Session β} (h : s.rest.Yields p) (turns : List Turn) :
    ∀ b ∈ (s.turnAll turns).2, p b := by
  induction turns generalizing s with
  | nil => nofun
  | cons t rest ih =>
    obtain ⟨hitems, hrest⟩ := yields_turn h t
    intro b hb
    rw [turnAll] at hb
    rcases List.mem_append.1 hb with hb | hb
    · exact hitems b hb
    · exact ih hrest b hb

end Session

/-- Over every run all items have the property. -/
theorem Stream.Yields.run {stream : Stream β} (h : stream.Yields p) (now : Snapshot)
    (turns : List Session.Turn) : ∀ b ∈ (Session.run stream now turns).2, p b := by
  have hstart := h now []
  intro b hb
  rw [Session.run] at hb
  rcases List.mem_append.1 hb with hb | hb
  · exact hstart.items b hb
  · exact Session.yields_turnAll hstart.rest turns b hb

end PolicyDecision
