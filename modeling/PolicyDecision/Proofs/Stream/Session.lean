import PolicyDecision.Proofs.Stream.Settling
import PolicyDecision.Stream.Session

/-!
# PolicyDecision.Proofs.Stream.Session

Sessions under pushes.

A push makes the open subscriptions of its source stale; each delivery takes one of them away, or
finds it dropped. Subscriptions that a delivery makes begin with the latest values, so none is left at
the end.

* `Snapshot.pushAll`, `Session.pushAll`: sources that change one after the other.
* `Session.Follows`: the invariant; some of the open subscriptions are stale.
* `Session.Follows.deliver`, `Session.Follows.push`: one delivery, and all deliveries of one push.
* `Stream.Settles.last_follow`: after all pushes, the last item is the first of a new subscription.
-/

namespace PolicyDecision

variable {α : Type} {warm : String → Prop}

/-- A source with a new latest value. -/
def Snapshot.push (now : Snapshot) (source : String) (v : Val) : Snapshot := fun name =>
  if name = source then { now source with backlog := [v] } else now name

def Snapshot.pushAll (now : Snapshot) (pushes : List (String × Val)) : Snapshot :=
  pushes.foldl (fun now p => now.push p.1 p.2) now

namespace Snapshot

theorem latest_push {now : Snapshot} {source : String} {v : Val} :
    (now.push source v).latest source = v := by
  simp [latest, push]

theorem latest_push_of_ne {now : Snapshot} {source other : String} {v : Val} (h : other ≠ source) :
    (now.push source v).latest other = now.latest other := by
  simp [latest, push, h]

theorem IsWarm.push {now : Snapshot} (h : now.IsWarm warm) (source : String) (v : Val) :
    (now.push source v).IsWarm warm := by
  intro name hname
  by_cases heq : name = source
  · subst heq
    rw [latest_push, Snapshot.push, if_pos rfl, h name hname]
  · rw [latest_push_of_ne heq, Snapshot.push, if_neg heq]
    exact h name hname

theorem IsWarm.pushAll {now : Snapshot} (h : now.IsWarm warm) (pushes : List (String × Val)) :
    (now.pushAll pushes).IsWarm warm := by
  induction pushes generalizing now with
  | nil => exact h
  | cons p rest ih => exact ih (h.push p.1 p.2)

end Snapshot

namespace Session

/-- Values that are pushed one after the other, each to the end of its deliveries. -/
def pushAll (s : Session α) : List (String × Val) → Session α × List α
  | [] => (s, [])
  | p :: rest =>
    let (s, first) := s.push p.1 p.2
    let (s, more) := s.pushAll rest
    (s, first ++ more)

/-- All items of a stream that is subscribed before the pushes. -/
def follow (stream : Stream α) (now : Snapshot) (pushes : List (String × Val)) : List α :=
  let (s, first) := start stream now
  first ++ (s.pushAll pushes).2

theorem deliver_now (s : Session α) (signal : Signal) (φ : Feed) :
    (s.deliver signal φ).1.now = s.now := by
  unfold deliver
  split <;> rfl

theorem deliverAll_now (s : Session α) (signal : Signal) (feeds : List Feed) :
    (s.deliverAll signal feeds).1.now = s.now := by
  induction feeds generalizing s with
  | nil => rfl
  | cons φ rest ih =>
    rw [deliverAll]
    exact (ih _).trans (s.deliver_now signal φ)

theorem push_now (s : Session α) (source : String) (v : Val) :
    (s.push source v).1.now = s.now.push source v := by
  unfold push
  dsimp only
  split
  · rfl
  · exact deliverAll_now _ _ _

theorem pushAll_now (s : Session α) (pushes : List (String × Val)) :
    (s.pushAll pushes).1.now = s.now.pushAll pushes := by
  induction pushes generalizing s with
  | nil => rfl
  | cons p rest ih =>
    rw [pushAll]
    exact (ih _).trans (by rw [push_now]; rfl)

/-- The stream of a session, the last item of which is `last`, tracks `value`. -/
structure Follows (warm : String → Prop) (value : Snapshot → α) (stale : Feed → Prop)
    (s : Session α) (last : α) : Prop where
  isWarm : s.now.IsWarm warm
  tracks : Tracks warm s.now stale value [] s.rest last
  mem_feeds : ∀ φ, φ ∈ s.feeds ↔ φ ∈ s.rest.feeds

/-- Open subscriptions are those that were kept and those that a call has announced. -/
theorem mem_settle {before : List Feed} {calls : List FinderCall} {a : α} {w : Flow α}
    (h : w.Emits before calls a)
    (hplaces : ∀ φ ∈ w.rest.feeds, ∀ ψ ∈ w.rest.feeds, φ.place = ψ.place → φ = ψ) (φ : Feed) :
    φ ∈ settle before w ↔ φ ∈ w.rest.feeds := by
  unfold settle
  rw [List.mem_append, List.mem_filter, List.mem_filterMap, List.contains_iff_mem]
  constructor
  · rintro (⟨_, hφ⟩ | ⟨call, _, hφ⟩)
    · exact hφ
    · exact List.mem_of_find?_eq_some hφ
  · intro hφ
    rcases h.announced φ hφ with hold | ⟨call, hcall, hplace⟩
    · exact .inl ⟨hold, hφ⟩
    · refine .inr ⟨call, ?_, ?_⟩
      · rw [Flow.calls, h.events, Event.calls_prompt]
        exact hcall
      · cases hfind : w.rest.feeds.find? fun f => f.place == call.place with
        | none =>
          have hnone := List.find?_eq_none.1 hfind φ hφ
          rw [hplace] at hnone
          simp at hnone
        | some ψ =>
          have hψ : ψ.place = call.place := by simpa using List.find?_some hfind
          rw [hplaces ψ (List.mem_of_find?_eq_some hfind) φ hφ (hψ.trans hplace)]

namespace Follows

variable {value : Snapshot → α} {stale : Feed → Prop} {s : Session α} {last : α}

theorem weaken (h : s.Follows warm value stale last) {stale' : Feed → Prop}
    (hstale : ∀ φ ∈ s.feeds, ¬ stale' φ → ¬ stale φ) : s.Follows warm value stale' last where
  isWarm := h.isWarm
  tracks := h.tracks.weaken s.now stale' fun φ hφ hnot =>
    ⟨hstale φ ((h.mem_feeds φ).2 hφ) hnot, rfl⟩
  mem_feeds := h.mem_feeds

theorem start {stream : Stream α} (h : stream.Settles warm value) {now : Snapshot}
    (hnow : now.IsWarm warm) :
    (Session.start stream now).1.Follows warm value (fun _ => False) (value now) where
  isWarm := hnow
  tracks := h.tracks now [] hnow
  mem_feeds := by
    obtain ⟨calls, hemits⟩ := h.emits now [] hnow
    exact mem_settle hemits (h.tracks now [] hnow).eq_of_place_eq

/-- A delivery of the latest value leaves its subscription up to date, or has found it dropped. -/
theorem deliver (h : s.Follows warm value stale last) (φ : Feed) :
    (s.deliver (.value (s.now.latest φ.source)) φ).1.Follows warm value (fun ψ => stale ψ ∧ ψ ≠ φ)
      ((s.deliver (.value (s.now.latest φ.source)) φ).2.getLast?.getD last) := by
  unfold Session.deliver
  rw [← Snapshot.delivery]
  split
  · rename_i hφ
    rw [List.contains_iff_mem, h.mem_feeds] at hφ
    obtain ⟨calls, a, hemits, htracks⟩ := h.tracks.advances h.isWarm φ hφ
    have hitems : (s.rest.resume s.now (s.now.delivery φ)).items = [a] := by
      rw [Flow.items, hemits.events, Event.items_prompt]
    simp only [hitems, List.getLast?_singleton, Option.getD_some]
    exact ⟨h.isWarm, htracks, mem_settle (hemits.mono fun ψ hψ => (h.mem_feeds ψ).2 hψ)
      htracks.eq_of_place_eq⟩
  · rename_i hφ
    rw [List.contains_iff_mem] at hφ
    refine h.weaken fun ψ hψ hnot hstale => hnot ⟨hstale, ?_⟩
    rintro rfl
    exact hφ hψ

/-- What is stale after a push is among the subscriptions that its value is still to reach. -/
theorem deliverAll {source : String} {feeds : List Feed} :
    ∀ {s : Session α} {last : α}, (∀ φ ∈ feeds, φ.source = source) →
      s.Follows warm value (· ∈ feeds) last →
      (s.deliverAll (.value (s.now.latest source)) feeds).1.Follows warm value (fun _ => False)
        ((s.deliverAll (.value (s.now.latest source)) feeds).2.getLast?.getD last) := by
  induction feeds with
  | nil =>
    intro s last _ h
    exact h.weaken fun φ _ _ => List.not_mem_nil
  | cons φ rest ih =>
    intro s last hsource h
    rw [List.forall_mem_cons] at hsource
    have hfirst := h.deliver φ
    rw [hsource.1] at hfirst
    have hrest := ih hsource.2 (hfirst.weaken fun ψ _ hnot ⟨hmem, hne⟩ =>
      hnot (List.mem_of_ne_of_mem hne hmem))
    rw [deliver_now] at hrest
    rw [Session.deliverAll, List.getLast?_append, Option.getD_or]
    exact hrest

/-- After a push, whatever the subscriptions of its source were, nothing is stale. -/
theorem push (h : s.Follows warm value (fun _ => False) last) (source : String) (v : Val) :
    (s.push source v).1.Follows warm value (fun _ => False)
      ((s.push source v).2.getLast?.getD last) := by
  have hnow := h.isWarm.push source v
  have hstale : ∀ φ ∈ s.rest.feeds, φ ∉ s.feedsOf source →
      ¬ False ∧ (s.now.push source v).latest φ.source = s.now.latest φ.source := by
    intro φ hφ hnot
    refine ⟨id, Snapshot.latest_push_of_ne ?_⟩
    intro heq
    refine hnot (List.mem_filter.2 ⟨(h.mem_feeds φ).2 hφ, ?_⟩)
    rw [heq, beq_self_eq_true]
  have hpushed : (s.setSource source { s.now source with backlog := [v] }).Follows warm value
      (· ∈ s.feedsOf source) last :=
    ⟨hnow, h.tracks.weaken (s.now.push source v) _ hstale, h.mem_feeds⟩
  unfold Session.push
  dsimp only
  split
  · rename_i hclosed
    refine hpushed.weaken fun φ hφ _ hof => ?_
    have hsource : φ.source = source := by
      simpa [feedsOf] using (List.mem_filter.1 hof).2
    have hopen := h.isWarm source (hsource ▸ h.tracks.warm_source φ ((h.mem_feeds φ).1 hφ))
    rw [hopen] at hclosed
    cases hclosed
  · have hlatest : (s.now.push source v).latest source = v := Snapshot.latest_push
    have hall := deliverAll (fun φ hφ => by simpa using (List.mem_filter.1 hφ).2) hpushed
    have hvalue : (s.setSource source { s.now source with backlog := [v] }).now.latest source = v :=
      hlatest
    rw [hvalue] at hall
    exact hall

theorem pushAll (pushes : List (String × Val)) :
    ∀ {s : Session α} {last : α}, s.Follows warm value (fun _ => False) last →
      (s.pushAll pushes).1.Follows warm value (fun _ => False)
        ((s.pushAll pushes).2.getLast?.getD last) := by
  induction pushes with
  | nil =>
    intro s last h
    exact h
  | cons p rest ih =>
    intro s last h
    rw [Session.pushAll, List.getLast?_append, Option.getD_or]
    exact ih (h.push p.1 p.2)

end Follows
end Session

/-- After all pushes, the last item of a stream is the first one of a new subscription. -/
theorem Stream.Settles.last_follow {stream : Stream α} {value : Snapshot → α}
    (h : stream.Settles warm value) {now : Snapshot} (hnow : now.IsWarm warm)
    (pushes : List (String × Val)) :
    ∃ a, (Session.follow stream now pushes).getLast? = some a ∧
      (Session.start stream (now.pushAll pushes)).2.head? = some a := by
  have hstart := Session.Follows.start h hnow
  have hfollows := hstart.pushAll pushes
  have hitems : ∀ now', now'.IsWarm warm → (Session.start stream now').2 = [value now'] := by
    intro now' hnow'
    obtain ⟨calls, hemits⟩ := h.emits now' [] hnow'
    rw [Session.start, Flow.items, hemits.events, Event.items_prompt]
  have hlast := hfollows.tracks.value_eq hfollows.isWarm fun _ _ => id
  rw [Session.pushAll_now] at hlast
  refine ⟨value (now.pushAll pushes), ?_, ?_⟩
  · have hall : Session.follow stream now pushes =
        [value now] ++ ((Session.start stream now).1.pushAll pushes).2 := by
      rw [← hitems now hnow]
      rfl
    rw [hall, List.getLast?_append, List.getLast?_singleton]
    cases hmore : ((Session.start stream now).1.pushAll pushes).2.getLast? with
    | none =>
      rw [hmore] at hlast
      exact congrArg some hlast
    | some a =>
      rw [hmore] at hlast
      exact congrArg some hlast
  · rw [hitems _ (hnow.pushAll pushes)]
    rfl

end PolicyDecision
