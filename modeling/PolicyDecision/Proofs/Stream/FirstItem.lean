import PolicyDecision.Proofs.Stream.OneShot
import PolicyDecision.Proofs.Stream.Projection

/-!
# PolicyDecision.Proofs.Stream.FirstItem

A stream beside the stream of its first item.

Until there is an item both have the same subscriptions and make the same calls. The item ends the
one; the other one may go on.

* `Rest.resume_first`: a resumption, and the first item of what it gives.
* `Session.Leads`: two sessions after a step.
* `Stream.IsFirstOf`: what is to be seen of such a pair over a whole run.
* `Stream.isFirstOf_first`: the first item of any stream.
-/

namespace PolicyDecision

variable {α : Type}

/-! ## Streams at rest -/

namespace Rest

theorem isEnded_first (r : Rest α) : r.first.isEnded = r.isEnded := by
  rw [first]
  split
  · rename_i h
    exact h.symm
  · rename_i h
    exact (Bool.eq_false_iff.2 h).symm

theorem feeds_first (r : Rest α) : r.first.feeds = r.feeds := by
  rw [first]
  split
  · rename_i h
    rw [feeds_of_isEnded h, feeds]
  · rw [feeds]

theorem resume_first (r : Rest α) (now : Snapshot) (deliveries : List Delivery) :
    r.first.resume now deliveries = (r.resume now deliveries).first := by
  rw [first]
  split
  · rename_i h
    rw [eq_ended_of_isEnded h, resume_ended]
    rfl
  · rw [resume]

end Rest

namespace Flow

theorem items_first (w : Flow α) : w.first.items = w.items.take 1 := by
  cases h : w.items with
  | nil =>
    rw [first_of_silent h]
    exact h
  | cons a more => exact (first_of_items h).1

end Flow

/-! ## Sessions -/

namespace Session

/-- Two sessions with the same subscriptions and calls. The first one ends with its next item. -/
structure Heads (s t : Session α) : Prop where
  now : s.now = t.now
  rest : s.rest = t.rest.first
  feeds : s.feeds = t.feeds
  calls : s.calls = t.calls
  done : s.done = t.done

/-- Two sessions after a step, with the items of the step. Without an item they go on together; with
the first one the first session is over. -/
structure Leads (x y : Session α × List α) : Prop where
  items : x.2 = y.2.take 1
  together : y.2 = [] → x.1.Heads y.1
  finished : y.2 ≠ [] → x.1.IsOver

namespace Leads

/-- One step after the other. -/
theorem append {x x' y y' : Session α × List α} (h : Leads x y)
    (hmore : x.1.Heads y.1 → Leads x' y') (hover : x.1.IsOver → x'.2 = [] ∧ x'.1.IsOver) :
    Leads (x'.1, x.2 ++ x'.2) (y'.1, y.2 ++ y'.2) := by
  by_cases hsilent : y.2 = []
  · have hx : x.2 = [] := by rw [h.items, hsilent, List.take_nil]
    rw [hx, hsilent, List.nil_append, List.nil_append]
    exact hmore (h.together hsilent)
  · obtain ⟨hnone, hdone⟩ := hover (h.finished hsilent)
    constructor
    case items =>
      obtain ⟨a, more, hy⟩ := List.exists_cons_of_ne_nil hsilent
      show x.2 ++ x'.2 = (y.2 ++ y'.2).take 1
      rw [hnone, List.append_nil, h.items, hy]
      rfl
    case together =>
      intro hnil
      exact absurd (List.append_eq_nil_iff.1 hnil).1 hsilent
    case finished =>
      intro _
      exact hdone

/-- Without an item nothing tells the sessions apart. -/
theorem report_eq {x y : Session α × List α} (h : Leads x y) (hsilent : y.2 = []) :
    x.1.report x.2 = y.1.report y.2 := by
  have htogether := h.together hsilent
  rw [report, report, h.items, hsilent, List.take_nil, htogether.feeds, htogether.calls,
    htogether.done]

theorem of_flow {s t : Session α} {w : Flow α} (hnow : s.now = t.now)
    (hs : s.rest = w.first.rest ∧ s.done = w.first.rest.isEnded)
    (ht : t.rest = w.rest ∧ t.done = w.rest.isEnded) {feeds : List Feed} {calls : List FinderCall}
    (hfeeds : s.feeds = settle feeds w.first ∧ t.feeds = settle feeds w)
    (hcalls : s.calls = calls ++ w.first.calls ∧ t.calls = calls ++ w.calls) :
    Leads (s, w.first.items) (t, w.items) where
  items := w.items_first
  together hsilent := by
    have hfirst := Flow.first_of_silent hsilent
    have hsame : w.first.calls = w.calls := by
      rw [hfirst]
      rfl
    have hrest : w.first.rest = w.rest.first := by rw [hfirst]
    constructor
    case now => exact hnow
    case rest => rw [hs.1, ht.1, hrest]
    case feeds => rw [hfeeds.1, hfeeds.2, settle, settle, hrest, Rest.feeds_first, hsame]
    case calls => rw [hcalls.1, hcalls.2, hsame]
    case done => rw [hs.2, ht.2, hrest, Rest.isEnded_first]
  finished hitems := by
    obtain ⟨a, more, hw⟩ := List.exists_cons_of_ne_nil hitems
    obtain ⟨_, hended⟩ := Flow.first_of_items hw
    constructor
    case rest => exact hs.1.trans hended
    case feeds => exact hfeeds.1.trans (settle_of_ended hended feeds)
    case done =>
      rw [hs.2, hended]
      rfl

end Leads

namespace Heads

variable {s t : Session α}

/-- Nothing happens in either session. -/
theorem still (h : s.Heads t) : Leads (s, []) (t, []) where
  items := rfl
  together _ := h
  finished hnil := absurd rfl hnil

theorem deliver (h : s.Heads t) (signal : Signal) (feed : Feed) :
    Leads (s.deliver signal feed) (t.deliver signal feed) := by
  rw [Session.deliver, Session.deliver, h.feeds, h.now, h.rest, Rest.resume_first, h.calls]
  split
  · exact .of_flow rfl ⟨rfl, rfl⟩ ⟨rfl, rfl⟩ ⟨rfl, rfl⟩ ⟨rfl, rfl⟩
  · exact h.still

theorem deliverAll (h : s.Heads t) (signal : Signal) (feeds : List Feed) :
    Leads (s.deliverAll signal feeds) (t.deliverAll signal feeds) := by
  induction feeds generalizing s t with
  | nil => exact h.still
  | cons feed rest ih =>
    have hover (hover : (s.deliver signal feed).1.IsOver) :
        ((s.deliver signal feed).1.deliverAll signal rest).2 = [] ∧
          ((s.deliver signal feed).1.deliverAll signal rest).1.IsOver := by
      rw [hover.deliverAll]
      exact ⟨rfl, hover⟩
    exact (h.deliver signal feed).append ih hover

theorem setSource (h : s.Heads t) (source : String) (state : SourceState) :
    (s.setSource source state).Heads (t.setSource source state) :=
  { h with now := by rw [Session.setSource, Session.setSource, h.now] }

theorem feedsOf_eq (h : s.Heads t) (source : String) : s.feedsOf source = t.feedsOf source := by
  rw [feedsOf, feedsOf, h.feeds]

theorem turn (h : s.Heads t) (change : Turn) : Leads (s.turn change) (t.turn change) := by
  cases change with
  | push source value =>
    have hset := h.setSource source { s.now source with backlog := [value] }
    rw [Session.turn, Session.turn, push, push, ← h.now, hset.feedsOf_eq]
    split
    · exact hset.still
    · exact hset.deliverAll _ _
  | close source =>
    have hset := h.setSource source { s.now source with closed := true }
    rw [Session.turn, Session.turn, close, close, ← h.now, hset.feedsOf_eq]
    exact hset.deliverAll _ _
  | cancel => exact still { h with rest := rfl, feeds := rfl }

theorem turnAll (h : s.Heads t) (turns : List Turn) :
    Leads (s.turnAll turns) (t.turnAll turns) := by
  induction turns generalizing s t with
  | nil => exact h.still
  | cons change rest ih =>
    refine (h.turn change).append ih fun hover => ?_
    obtain ⟨hitems, hover, _⟩ := hover.turnAll rest
    exact ⟨hitems, hover⟩

theorem reportsFrom_eq (h : s.Heads t) (turns : List Turn) (hsilent : (t.turnAll turns).2 = []) :
    s.reportsFrom turns = t.reportsFrom turns := by
  induction turns generalizing s t with
  | nil => rfl
  | cons change rest ih =>
    obtain ⟨hfirst, hmore⟩ :
        (t.turn change).2 = [] ∧ ((t.turn change).1.turnAll rest).2 = [] :=
      List.append_eq_nil_iff.1 hsilent
    have hturn := h.turn change
    exact congrArg₂ List.cons (hturn.report_eq hfirst) (ih (hturn.together hfirst) hmore)

end Heads

theorem start_first (stream : Stream α) (now : Snapshot) :
    Leads (start stream.first now) (start stream now) :=
  .of_flow rfl ⟨rfl, rfl⟩ ⟨rfl, rfl⟩ ⟨rfl, rfl⟩ ⟨(List.nil_append _).symm, (List.nil_append _).symm⟩

end Session

/-! ## Runs -/

/-- The stream `s` gives the first item of `t`, and stops with it.

* `items`: over every run, what `s` gives is the first item of `t`, if there is one.
* `before`: as long as there is none, the subscriptions, the calls and the end are the same.
* `finished`: with the item `s` has ended, and nothing is subscribed.
* `later`: whatever the sources do then, there is no item, no call and no subscription any more. -/
structure Stream.IsFirstOf (s t : Stream α) : Prop where
  items : ∀ now turns, (Session.run s now turns).2 = (Session.run t now turns).2.take 1
  before : ∀ now turns, (Session.run t now turns).2 = [] →
    Session.reports s now turns = Session.reports t now turns
  finished : ∀ now turns, (Session.run s now turns).2 ≠ [] → (Session.run s now turns).1.IsOver
  later : ∀ now turns more, (Session.run s now turns).2 ≠ [] →
    ((Session.run s now turns).1.turnAll more).2 = [] ∧
      ((Session.run s now turns).1.turnAll more).1.IsOver ∧
      ((Session.run s now turns).1.turnAll more).1.calls = (Session.run s now turns).1.calls

theorem Stream.IsOneShot.isOver {stream : Stream α} (h : stream.IsOneShot) {now : Snapshot}
    {turns : List Session.Turn} (hitems : (Session.run stream now turns).2 ≠ []) :
    (Session.run stream now turns).1.IsOver := by
  rcases h.run now turns with ⟨hnone, _⟩ | ⟨a, _, hover⟩
  · exact absurd hnone hitems
  · exact hover

theorem Stream.isFirstOf_first (stream : Stream α) : stream.first.IsFirstOf stream := by
  have hleads (now : Snapshot) (turns : List Session.Turn) :
      Session.Leads (Session.run stream.first now turns) (Session.run stream now turns) := by
    refine (Session.start_first stream now).append (fun h => h.turnAll turns) fun hover => ?_
    obtain ⟨hitems, hover, _⟩ := hover.turnAll turns
    exact ⟨hitems, hover⟩
  constructor
  case items => exact fun now turns => (hleads now turns).items
  case before =>
    intro now turns hsilent
    obtain ⟨hfirst, hmore⟩ : (Session.start stream now).2 = [] ∧
        ((Session.start stream now).1.turnAll turns).2 = [] := List.append_eq_nil_iff.1 hsilent
    have hstart := Session.start_first stream now
    exact congrArg₂ List.cons (hstart.report_eq hfirst)
      ((hstart.together hfirst).reportsFrom_eq turns hmore)
  case finished => exact fun now turns => (Stream.IsOneShot.first stream).isOver
  case later =>
    exact fun now turns more hitems => ((Stream.IsOneShot.first stream).isOver hitems).turnAll more

end PolicyDecision
