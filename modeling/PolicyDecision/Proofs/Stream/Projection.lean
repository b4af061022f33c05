import PolicyDecision.Proofs.Stream.Emission

/-!
# PolicyDecision.Proofs.Stream.Projection

Two streams that wait for the same deliveries, where the items of one are read off the items of the
other.

The first stream may give more items than the second one, and some of its items may be stops: once
there is a stop, the streams may part. Up to then they make the same calls, and whatever is
delivered, their subscriptions stay the same.

* `Session.reports`: what can be seen of a session, after its start and after every turn.
* `Rest.Projects`: the relation of two streams at rest.
* `Rest.Projects.resume`: one resumption keeps it, if it gives no stop.
* `Stream.Projects.reports`: so the reports are the same, with the items read off, over every run
  without a stop.
-/

namespace PolicyDecision

variable {α β γ : Type} {f : α → Option β} {stop : α → Prop}

/-! ## Reports -/

/-- What can be seen of a session: the items of its last step, the open subscriptions and the finder
calls so far in order, and whether it has ended. -/
structure Session.Report (α : Type) where
  emitted : List α
  feeds : List Feed
  calls : List FinderCall
  done : Bool

namespace Session

/-- The same report with the items read off. -/
def Report.select (f : α → Option β) (r : Report α) : Report β :=
  { r with emitted := r.emitted.filterMap f }

theorem Report.select_some : Report.select (some : α → Option α) = id :=
  funext fun _ => by rw [select, List.filterMap_some, id]

def report (s : Session α) (emitted : List α) : Report α := ⟨emitted, s.feeds, s.calls, s.done⟩

def reportsFrom (s : Session α) : List Turn → List (Report α)
  | [] => []
  | t :: rest =>
    let (s, emitted) := s.turn t
    s.report emitted :: s.reportsFrom rest

/-- A report after the start of a session, and one after each turn. -/
def reports (stream : Stream α) (now : Snapshot) (turns : List Turn) : List (Report α) :=
  let (s, emitted) := start stream now
  s.report emitted :: s.reportsFrom turns

end Session

/-! ## Events -/

namespace Event

def select? (f : α → Option β) : Event α → Option (Event β)
  | .call c => some (.call c)
  | .item a => (f a).map .item

/-- All calls, and the items as they are read off. -/
def select (f : α → Option β) (events : List (Event α)) : List (Event β) :=
  events.filterMap (select? f)

theorem select_append (l₁ l₂ : List (Event α)) : select f (l₁ ++ l₂) = select f l₁ ++ select f l₂ :=
  List.filterMap_append

theorem select_item (a : α) (rest : List (Event α)) :
    select f (.item a :: rest) = ((f a).map .item).toList ++ select f rest := by
  cases h : f a with
  | none => exact List.filterMap_cons_none (by rw [select?, h]; rfl)
  | some b => exact List.filterMap_cons_some (by rw [select?, h]; rfl)

theorem items_select (events : List (Event α)) :
    items (select f events) = (items events).filterMap f := by
  induction events with
  | nil => rfl
  | cons e rest ih =>
    cases e with
    | call c => exact ih
    | item a =>
      rw [select_item, items_append, ih]
      show _ = List.filterMap f (a :: items rest)
      cases h : f a with
      | none => rw [List.filterMap_cons_none h]; rfl
      | some b => rw [List.filterMap_cons_some h]; rfl

theorem calls_select (events : List (Event α)) : calls (select f events) = calls events := by
  induction events with
  | nil => rfl
  | cons e rest ih =>
    cases e with
    | call c => exact congrArg (c :: ·) ih
    | item a =>
      rw [select_item]
      cases f a with
      | none => exact ih
      | some b => exact ih

/-- Items from which the items before are read off. -/
theorem select_map {g : β → α} (h : ∀ b, f (g b) = some b) (events : List (Event β)) :
    select f (events.map (Event.map g)) = events := by
  induction events with
  | nil => rfl
  | cons e rest ih =>
    cases e with
    | call c => exact congrArg (.call c :: ·) ih
    | item b =>
      show select f (.item (g b) :: rest.map (Event.map g)) = .item b :: rest
      rw [select_item, h, ih]
      rfl

end Event

/-! ## Streams at rest -/

/-- No event is a stop. -/
def Event.Clear (stop : α → Prop) (events : List (Event α)) : Prop :=
  ∀ a ∈ Event.items events, ¬ stop a

theorem Event.clear_append {l₁ l₂ : List (Event α)} :
    Event.Clear stop (l₁ ++ l₂) ↔ Event.Clear stop l₁ ∧ Event.Clear stop l₂ := by
  simp only [Event.Clear, Event.items_append, List.forall_mem_append]

/-- Two streams at rest with the same subscriptions. What is delivered to them sets off the same
calls, and items that are read off each other, as long as there is no stop. -/
inductive Rest.Projects (f : α → Option β) (stop : α → Prop) : Rest α → Rest β → Prop where
  | ended : Projects f stop .ended .ended
  | mapped {g : β → α} {source : Rest β} (hopen : source.isEnded = false)
      (h : ∀ b, f (g b) = some b) : Projects f stop (.mapped g source) source
  | switched {γ : Type} {events : γ → Snapshot → Place → List (Event α)}
      {events' : γ → Snapshot → Place → List (Event β)} {rests : γ → Snapshot → Place → Rest α}
      {rests' : γ → Snapshot → Place → Rest β} {place : Place} {count : Nat} {outer : Rest γ}
      {inner : Rest α} {inner' : Rest β}
      (hevents : ∀ c now p, Event.Clear stop (events c now p) →
        Event.select f (events c now p) = events' c now p)
      (hrests : ∀ c now p, Event.Clear stop (events c now p) →
        Projects f stop (rests c now p) (rests' c now p))
      (hinner : Projects f stop inner inner') :
      Projects f stop (.switched events rests place count outer inner)
        (.switched events' rests' place count outer inner')

structure Flow.Projects (f : α → Option β) (stop : α → Prop) (w : Flow α) (w' : Flow β) : Prop where
  events : Event.select f w.events = w'.events
  rest : w.rest.Projects f stop w'.rest

/-- Wherever and under whatever snapshot the streams start, their flows correspond if there is no
stop. -/
def Stream.Projects (f : α → Option β) (stop : α → Prop) (s : Stream α) (s' : Stream β) : Prop :=
  ∀ now place, Event.Clear stop (s now place).events → (s now place).Projects f stop (s' now place)

namespace Rest.Projects

variable {r : Rest α} {r' : Rest β}

theorem isEnded_eq (h : r.Projects f stop r') : r.isEnded = r'.isEnded := by
  cases h with
  | ended => rfl
  | mapped hopen _ => rw [hopen]; rfl
  | switched _ _ _ => rfl

theorem feeds_eq (h : r.Projects f stop r') : r.feeds = r'.feeds := by
  induction h with
  | ended => rfl
  | mapped _ _ => rw [Rest.feeds]
  | switched _ _ _ _ ih => rw [Rest.feeds, Rest.feeds, ih]

end Rest.Projects

/-! ## Flows -/

namespace Flow

theorem Projects.calls_eq {w : Flow α} {w' : Flow β} (h : w.Projects f stop w') :
    w.calls = w'.calls := by
  rw [calls, calls, ← h.events, Event.calls_select]

theorem Projects.items_eq {w : Flow α} {w' : Flow β} (h : w.Projects f stop w') :
    w.items.filterMap f = w'.items := by
  rw [items, items, ← h.events, Event.items_select]

theorem projects_map {g : β → α} (h : ∀ b, f (g b) = some b) (w : Flow β) :
    (w.map g).Projects f stop w where
  events := Event.select_map h w.events
  rest := by
    show (w.rest.map g).Projects f stop w.rest
    rw [Rest.map]
    cases hended : w.rest.isEnded with
    | false => exact .mapped hended h
    | true =>
      have hrest : w.rest = .ended := by
        cases hw : w.rest <;> simp_all [Rest.isEnded]
      rw [hrest]
      exact .ended

/-- The flows of the outer items correspond, one by one. -/
theorem projects_follow {stream : γ → Place → Flow α} {stream' : γ → Place → Flow β}
    (h : ∀ c p, Event.Clear stop (stream c p).events → (stream c p).Projects f stop (stream' c p))
    (place : Place) (outer : List (Event γ)) (count : Nat) {inner : Rest α} {inner' : Rest β}
    (hinner : inner.Projects f stop inner')
    (hclear : Event.Clear stop (Switch.follow stream place outer count inner).1) :
    Event.select f (Switch.follow stream place outer count inner).1 =
        (Switch.follow stream' place outer count inner').1 ∧
      (Switch.follow stream place outer count inner).2.1 =
        (Switch.follow stream' place outer count inner').2.1 ∧
      (Switch.follow stream place outer count inner).2.2.Projects f stop
        (Switch.follow stream' place outer count inner').2.2 := by
  induction outer generalizing count inner inner' with
  | nil => exact ⟨rfl, rfl, hinner⟩
  | cons e rest ih =>
    cases e with
    | call c =>
      obtain ⟨hevents, hlast⟩ := ih count hinner hclear
      exact ⟨congrArg (Event.call c :: ·) hevents, hlast⟩
    | item c =>
      rw [Switch.follow] at hclear ⊢
      obtain ⟨hfirst, hmore⟩ := Event.clear_append.1 hclear
      have hstream := h c ((count + 1) :: place) hfirst
      obtain ⟨hevents, hlast⟩ := ih (count + 1) hstream.rest hmore
      refine ⟨?_, hlast⟩
      show Event.select f (_ ++ _) = _
      rw [Event.select_append, hstream.events, hevents]
      rfl

theorem projects_switch {stream : γ → Stream α} {stream' : γ → Stream β}
    (h : ∀ c, (stream c).Projects f stop (stream' c)) (now : Snapshot) (place : Place) (count : Nat)
    (outer : Flow γ) {inner : Flow α} {inner' : Flow β}
    (hinner : Event.Clear stop inner.events → inner.Projects f stop inner')
    (hclear : Event.Clear stop (switch stream now place count outer inner).events) :
    (switch stream now place count outer inner).Projects f stop
      (switch stream' now place count outer inner') := by
  obtain ⟨hbefore, hfollow⟩ := Event.clear_append.1 hclear
  have hinner := hinner hbefore
  obtain ⟨hevents, hcount, hlast⟩ :=
    projects_follow (fun c p => h c now p) place outer.events count hinner.rest hfollow
  constructor
  case events =>
    show Event.select f (_ ++ _) = _
    rw [Event.select_append, hinner.events, hevents]
    rfl
  case rest =>
    show (Rest.switch stream place _ outer.rest _).Projects f stop
      (Rest.switch stream' place _ outer.rest _)
    rw [Rest.switch, Rest.switch, hlast.isEnded_eq]
    split
    · exact .ended
    · rw [hcount]
      exact .switched (fun c now p hc => (h c now p hc).events)
        (fun c now p hc => (h c now p hc).rest) hlast

end Flow

/-- Deliveries keep two streams together, unless they set off a stop. -/
theorem Rest.Projects.resume {r : Rest α} {r' : Rest β} (h : r.Projects f stop r') (now : Snapshot)
    (deliveries : List Delivery) (hclear : Event.Clear stop (r.resume now deliveries).events) :
    (r.resume now deliveries).Projects f stop (r'.resume now deliveries) := by
  -- The induction follows the inner streams of switches. Their outer streams are the same, and so is
  -- what a changed stream is read off.
  induction h with
  | ended =>
    rw [Rest.resume, Rest.resume]
    exact ⟨rfl, .ended⟩
  | mapped _ hg =>
    rw [Rest.resume]
    exact Flow.projects_map hg _
  | switched hevents hrests _ _ ih =>
    rw [Rest.resume] at hclear ⊢
    rw [Rest.resume]
    exact Flow.projects_switch
      (fun c now p hc => ⟨hevents c now p hc, hrests c now p hc⟩) now _ _ _ ih hclear

/-! ## Streams -/

namespace Stream

/-- A stream with an item before all others. -/
def cons (a : α) (s : Stream α) : Stream α := fun now place =>
  let w := s now place
  ⟨.item a :: w.events, w.rest⟩

theorem projects_just {a : α} {b : β} (h : f a = some b) : (just a).Projects f stop (just b) := by
  intro now place _
  refine ⟨?_, .ended⟩
  show Event.select f [.item a] = [.item b]
  rw [Event.select_item, h]
  rfl

theorem projects_map {g : β → α} (h : ∀ b, f (g b) = some b) (s : Stream β) :
    (s.map g).Projects f stop s :=
  fun now place _ => Flow.projects_map h (s now place)

theorem projects_switchMap (source : Stream γ) {stream : γ → Stream α} {stream' : γ → Stream β}
    (h : ∀ c, (stream c).Projects f stop (stream' c)) :
    (source.switchMap stream).Projects f stop (source.switchMap stream') :=
  fun now place => Flow.projects_switch h now place 0 _ fun _ => ⟨rfl, .ended⟩

theorem projects_of_cons {a : α} {s : Stream α} {t : Stream β} (ha : f a = none)
    (h : ¬ stop a → s.Projects f stop t) : (cons a s).Projects f stop t := by
  intro now place hclear
  have hflow := h (hclear a (.head _)) now place fun b hb => hclear b (.tail _ hb)
  refine ⟨?_, hflow.rest⟩
  show Event.select f (.item a :: _) = _
  rw [Event.select_item, ha, hflow.events]
  rfl

theorem projects_cons {a : α} {b : β} {s : Stream α} {t : Stream β} (ha : f a = some b)
    (h : ¬ stop a → s.Projects f stop t) : (cons a s).Projects f stop (cons b t) := by
  intro now place hclear
  have hflow := h (hclear a (.head _)) now place fun b hb => hclear b (.tail _ hb)
  refine ⟨?_, hflow.rest⟩
  show Event.select f (.item a :: _) = _
  rw [Event.select_item, ha, hflow.events]
  rfl

end Stream

/-! ## Sessions -/

namespace Session

/-- Two sessions with the same subscriptions and calls, the streams of which correspond. -/
structure Projects (f : α → Option β) (stop : α → Prop) (s : Session α) (s' : Session β) :
    Prop where
  now : s.now = s'.now
  rest : s.rest.Projects f stop s'.rest
  feeds : s.feeds = s'.feeds
  calls : s.calls = s'.calls
  done : s.done = s'.done

/-- Two sessions that correspond after a step, in which the items were read off. -/
structure StepProjects (f : α → Option β) (stop : α → Prop) (x : Session α × List α)
    (y : Session β × List β) : Prop where
  session : x.1.Projects f stop y.1
  items : x.2.filterMap f = y.2

theorem StepProjects.report_eq {x : Session α × List α} {y : Session β × List β}
    (h : StepProjects f stop x y) : (x.1.report x.2).select f = y.1.report y.2 := by
  rw [Report.select, report, report, h.items, h.session.feeds, h.session.calls, h.session.done]

theorem settle_eq {w : Flow α} {w' : Flow β} (h : w.Projects f stop w') (feeds : List Feed) :
    settle feeds w = settle feeds w' := by
  rw [settle, settle, h.rest.feeds_eq, h.calls_eq]

variable {s : Session α} {s' : Session β}

theorem Projects.deliver (h : s.Projects f stop s') (signal : Signal) (feed : Feed)
    (hclear : ∀ a ∈ (s.deliver signal feed).2, ¬ stop a) :
    StepProjects f stop (s.deliver signal feed) (s'.deliver signal feed) := by
  rw [Session.deliver] at hclear ⊢
  rw [Session.deliver, ← h.feeds, ← h.now]
  split
  · next hopen =>
    rw [if_pos hopen] at hclear
    have hflow := h.rest.resume s.now [⟨feed.place, signal⟩] hclear
    rw [h.calls]
    dsimp only
    rw [hflow.calls_eq]
    exact
      { session :=
          { now := rfl, rest := hflow.rest, feeds := settle_eq hflow _
            calls := rfl, done := hflow.rest.isEnded_eq }
        items := hflow.items_eq }
  · exact ⟨h, rfl⟩

theorem Projects.deliverAll (h : s.Projects f stop s') (signal : Signal) (feeds : List Feed)
    (hclear : ∀ a ∈ (s.deliverAll signal feeds).2, ¬ stop a) :
    StepProjects f stop (s.deliverAll signal feeds) (s'.deliverAll signal feeds) := by
  induction feeds generalizing s s' with
  | nil => exact ⟨h, rfl⟩
  | cons feed rest ih =>
    rw [Session.deliverAll] at hclear ⊢
    obtain ⟨hfirst, hmore⟩ := List.forall_mem_append.1 hclear
    have hdeliver := h.deliver signal feed hfirst
    have hrest := ih hdeliver.session hmore
    refine ⟨hrest.session, ?_⟩
    rw [List.filterMap_append, hdeliver.items, hrest.items]
    rfl

theorem Projects.setSource (h : s.Projects f stop s') (source : String) (state : SourceState) :
    (s.setSource source state).Projects f stop (s'.setSource source state) :=
  { h with now := by rw [Session.setSource, Session.setSource, h.now] }

theorem Projects.feedsOf_eq (h : s.Projects f stop s') (source : String) :
    s.feedsOf source = s'.feedsOf source := by
  rw [feedsOf, feedsOf, h.feeds]

theorem Projects.turn (h : s.Projects f stop s') (t : Turn)
    (hclear : ∀ a ∈ (s.turn t).2, ¬ stop a) : StepProjects f stop (s.turn t) (s'.turn t) := by
  cases t with
  | push source value =>
    have hset := h.setSource source { s.now source with backlog := [value] }
    rw [Session.turn, push] at hclear ⊢
    rw [Session.turn, push, ← h.now]
    split
    · exact ⟨hset, rfl⟩
    · next hopen =>
      rw [if_neg hopen] at hclear
      rw [← hset.feedsOf_eq]
      exact hset.deliverAll _ _ hclear
  | close source =>
    have hset := h.setSource source { s.now source with closed := true }
    rw [Session.turn, close] at hclear ⊢
    rw [Session.turn, close, ← h.now, ← hset.feedsOf_eq]
    exact hset.deliverAll _ _ hclear
  | cancel => exact ⟨{ h with rest := .ended, feeds := rfl }, rfl⟩

theorem Projects.reportsFrom (h : s.Projects f stop s') (turns : List Turn)
    (hclear : ∀ r ∈ s.reportsFrom turns, ∀ a ∈ r.emitted, ¬ stop a) :
    (s.reportsFrom turns).map (Report.select f) = s'.reportsFrom turns := by
  induction turns generalizing s s' with
  | nil => rfl
  | cons t rest ih =>
    rw [Session.reportsFrom] at hclear ⊢
    obtain ⟨hfirst, hmore⟩ := List.forall_mem_cons.1 hclear
    have hturn := h.turn t hfirst
    rw [List.map_cons, ih hturn.session hmore, Session.reportsFrom]
    exact congrArg (· :: _) hturn.report_eq

end Session

/-- Over every run without a stop, the reports correspond. -/
theorem Stream.Projects.reports {stream : Stream α} {stream' : Stream β}
    (h : stream.Projects f stop stream') (now : Snapshot) (turns : List Session.Turn)
    (hclear : ∀ r ∈ Session.reports stream now turns, ∀ a ∈ r.emitted, ¬ stop a) :
    (Session.reports stream now turns).map (Session.Report.select f) =
      Session.reports stream' now turns := by
  rw [Session.reports] at hclear ⊢
  obtain ⟨hfirst, hmore⟩ := List.forall_mem_cons.1 hclear
  have hflow := h now [] hfirst
  have hstart :
      Session.StepProjects f stop (Session.start stream now) (Session.start stream' now) :=
    { session :=
        { now := rfl, rest := hflow.rest, feeds := Session.settle_eq hflow _
          calls := hflow.calls_eq, done := hflow.rest.isEnded_eq }
      items := hflow.items_eq }
  rw [List.map_cons, hstart.session.reportsFrom turns hmore, Session.reports]
  exact congrArg (· :: _) hstart.report_eq

end PolicyDecision
