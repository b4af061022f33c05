import PolicyDecision.Proofs.Stream.CombinedRun

/-!
# PolicyDecision.Proofs.Stream.OneShot

Streams that give at most one item, and end with it.

The first item of any stream is such a stream, and the combinators keep them. A combination gives its
item when the last of its streams does, all of which have ended then; a switch has an inner stream
only after its outer stream has ended.

* `Rest.IsOneShot`, `Flow.IsOneShot`: the invariant, over the tree of a stream at rest.
* `Rest.IsOneShot.resume`: one resumption keeps it.
* `Stream.IsOneShot`: the streams, with the combinators.
* `Session.IsOver`: nothing is subscribed, and nothing happens any more.
* `Stream.IsOneShot.run`: over every run there is no item, or one with which the session is over.
-/

namespace PolicyDecision

variable {α β : Type}

/-! ## Streams at rest -/

/-- A stream that may still give one item, and ends with it. -/
inductive Rest.IsOneShot : {α : Type} → Rest α → Prop
  | ended {α : Type} : IsOneShot (.ended : Rest α)
  | mapped {α β : Type} (f : α → β) {source : Rest α} :
    IsOneShot source → IsOneShot (.mapped f source)
  | combined {α β : Type} (f : List α → β) {latest : List (Option α)} {size : Nat}
      {sources : Fin size → Rest α} :
    latest.length = size → (∀ i, IsOneShot (sources i)) →
    (∀ (i : Fin size) a, latest[i.val]? = some (some a) → sources i = .ended) →
    IsOneShot (.combined f latest size sources)
  | switched {α β : Type} {events : α → Snapshot → Place → List (Event β)}
      {rests : α → Snapshot → Place → Rest β} {place : Place} {count : Nat} {outer : Rest α}
      {inner : Rest β} :
    (∀ a now p, IsOneShot (rests a now p)) →
    (∀ a now p, Event.items (events a now p) = [] ∨
      ∃ b, Event.items (events a now p) = [b] ∧ rests a now p = .ended) →
    IsOneShot outer → IsOneShot inner → outer = .ended ∨ inner = .ended →
    IsOneShot (.switched events rests place count outer inner)
  | firstOf {α : Type} (source : Rest α) : IsOneShot (.firstOf source)

/-- No item so far, or one item and the end. -/
structure Flow.IsOneShot (w : Flow α) : Prop where
  rest : w.rest.IsOneShot
  items : w.items = [] ∨ ∃ a, w.items = [a] ∧ w.rest = .ended

namespace Rest

theorem resume_ended (now : Snapshot) (deliveries : List Delivery) :
    (Rest.ended : Rest α).resume now deliveries = ⟨[], .ended⟩ := by
  rw [resume]

namespace IsOneShot

theorem map {r : Rest α} (h : r.IsOneShot) (f : α → β) : (r.map f).IsOneShot := by
  rw [Rest.map]
  split
  · exact .ended
  · exact .mapped f h

theorem first (r : Rest α) : r.first.IsOneShot := by
  rw [Rest.first]
  split
  · exact .ended
  · exact .firstOf r

theorem combine (f : List α → β) {latest : List (Option α)} {sources : List (Rest α)}
    (hlength : latest.length = sources.length) (h : ∀ r ∈ sources, r.IsOneShot)
    (hfilled : ∀ i (hi : i < sources.length) a, latest[i]? = some (some a) → sources[i] = .ended) :
    (Rest.combine f latest sources).IsOneShot := by
  rw [Rest.combine]
  split
  · exact .ended
  · exact .combined f hlength (fun i => h _ (List.getElem_mem i.isLt)) fun i => hfilled i i.isLt

theorem switch {stream : α → Stream β} {place : Place} {count : Nat} {outer : Rest α}
    {inner : Rest β} (h : ∀ a now p, (stream a now p).IsOneShot) (houter : outer.IsOneShot)
    (hinner : inner.IsOneShot) (hone : outer = .ended ∨ inner = .ended) :
    (Rest.switch stream place count outer inner).IsOneShot := by
  rw [Rest.switch]
  split
  · exact .ended
  · exact .switched (fun a now p => (h a now p).rest) (fun a now p => (h a now p).items) houter
      hinner hone

end IsOneShot
end Rest

/-! ## First items -/

namespace Flow

theorem cut_of_silent {events : List (Event α)} (h : Event.items events = []) :
    cut events = (events, false) := by
  induction events with
  | nil => rfl
  | cons e rest ih =>
    cases e with
    | item a => cases h
    | call c => rw [cut, ih h]

theorem cut_of_items {events : List (Event α)} {a : α} {more : List α}
    (h : Event.items events = a :: more) :
    Event.items (cut events).1 = [a] ∧ (cut events).2 = true := by
  induction events with
  | nil => cases h
  | cons e rest ih =>
    cases e with
    | item b =>
      cases h
      exact ⟨rfl, rfl⟩
    | call c => exact ih h

/-- Without an item the flow stays as it is. -/
theorem first_of_silent {w : Flow α} (h : w.items = []) : w.first = ⟨w.events, w.rest.first⟩ := by
  rw [first, cut_of_silent h]
  rfl

theorem first_of_items {w : Flow α} {a : α} {more : List α} (h : w.items = a :: more) :
    w.first.items = [a] ∧ w.first.rest = .ended := by
  obtain ⟨hitems, hfound⟩ := cut_of_items h
  refine ⟨hitems, ?_⟩
  show (if (cut w.events).2 then Rest.ended else w.rest.first) = .ended
  rw [hfound]
  rfl

end Flow

/-! ## Combinations -/

namespace Combine

theorem length_takenFrom (k : Nat) (taken : List (Nat × α)) :
    (takenFrom k taken).length = (taken.map (·.1)).count k := by
  rw [takenFrom, List.length_map, List.count, List.countP_map, List.countP_eq_length_filter]
  rfl

theorem scan_of_silent (f : List α → β) {events : List (Event (Nat × α))}
    (h : Event.items events = []) (latest : List (Option α)) :
    Event.items (scan f events latest).1 = [] ∧ (scan f events latest).2 = latest := by
  induction events with
  | nil => exact ⟨rfl, rfl⟩
  | cons e rest ih =>
    cases e with
    | item t => cases h
    | call c => exact ih h

/-- What a slot holds after some items was in it before, or is one of them. -/
theorem scan_slots (f : List α → β) (events : List (Event (Nat × α)))
    (latest : List (Option α)) :
    (scan f events latest).2.length = latest.length ∧
      ∀ (i : Nat) a, (scan f events latest).2[i]? = some (some a) →
        latest[i]? = some (some a) ∨ (i, a) ∈ Event.items events := by
  induction events generalizing latest with
  | nil => exact ⟨rfl, fun i a h => .inl h⟩
  | cons e rest ih =>
    cases e with
    | call c => exact ih latest
    | item t =>
      obtain ⟨j, b⟩ := t
      have hlast : (scan f (.item (j, b) :: rest) latest).2 =
          (scan f rest (latest.set j (some b))).2 := by
        rw [scan]
        dsimp only
        split <;> rfl
      have hitems : Event.items (.item (j, b) :: rest) = (j, b) :: Event.items rest := rfl
      obtain ⟨hlength, hslots⟩ := ih (latest.set j (some b))
      rw [hlast, hitems]
      refine ⟨by rw [hlength, List.length_set], fun i a hi => ?_⟩
      rcases hslots i a hi with hset | hmem
      · rw [List.getElem?_set] at hset
        split at hset
        · rename_i hji
          subst hji
          split at hset
          · cases hset
            exact .inr (.head _)
          · cases hset
        · exact .inl hset
      · exact .inr (.tail _ hmem)

/-- If every stream gives at most one item, and none whose slot is filled, then at most the last item
leads to a combination: all slots are filled only by then. -/
theorem scan_oneShot (f : List α → β) {events : List (Event (Nat × α))} {latest : List (Option α)}
    (hnodup : ((Event.items events).map (·.1)).Nodup)
    (hopen : ∀ t ∈ Event.items events, latest[t.1]? = some none) :
    Event.items (scan f events latest).1 = [] ∨
      ∃ values, Event.items (scan f events latest).1 = [f values] ∧
        (scan f events latest).2 = values.map some := by
  induction events generalizing latest with
  | nil => exact .inl rfl
  | cons e rest ih =>
    cases e with
    | call c => exact ih hnodup hopen
    | item t =>
      obtain ⟨i, a⟩ := t
      obtain ⟨hfresh, hnodup⟩ := List.nodup_cons.1 hnodup
      obtain ⟨-, hopen⟩ := List.forall_mem_cons.1 hopen
      have hothers : ∀ t ∈ Event.items rest, (latest.set i (some a))[t.1]? = some none := by
        intro t ht
        have hne : i ≠ t.1 := fun heq => hfresh (List.mem_map.2 ⟨t, ht, heq.symm⟩)
        rw [List.getElem?_set_ne hne]
        exact hopen t ht
      rw [scan]
      dsimp only
      cases hall : allPresent (latest.set i (some a)) with
      | none => exact ih hnodup hothers
      | some values =>
        rw [allPresent_eq_some_iff] at hall
        have hlast : Event.items rest = [] := by
          refine List.eq_nil_iff_forall_not_mem.2 fun t ht => ?_
          have hnone := hothers t ht
          rw [hall, List.getElem?_map, Option.map_eq_some_iff] at hnone
          obtain ⟨_, _, hnone⟩ := hnone
          cases hnone
        obtain ⟨hitems, hslots⟩ := scan_of_silent f hlast (latest.set i (some a))
        refine .inr ⟨values, ?_, ?_⟩
        · show f values :: Event.items _ = _
          rw [hitems]
        · exact hslots.trans hall

end Combine

namespace Switch

variable (stream : α → Place → Flow β) (place : Place) {outer : List (Event α)}

theorem follow_of_silent (h : Event.items outer = []) (count : Nat) (inner : Rest β) :
    Event.items (follow stream place outer count inner).1 = [] ∧
      (follow stream place outer count inner).2 = (count, inner) := by
  induction outer with
  | nil => exact ⟨rfl, rfl⟩
  | cons e rest ih =>
    cases e with
    | item a => cases h
    | call c => exact ih h

theorem follow_of_item {a : α} (h : Event.items outer = [a]) (count : Nat) (inner : Rest β) :
    Event.items (follow stream place outer count inner).1 =
        (stream a ((count + 1) :: place)).items ∧
      (follow stream place outer count inner).2 =
        (count + 1, (stream a ((count + 1) :: place)).rest) := by
  induction outer with
  | nil => cases h
  | cons e rest ih =>
    cases e with
    | call c => exact ih h
    | item b =>
      obtain ⟨rfl, hrest⟩ := List.cons.inj h
      obtain ⟨hitems, hlast⟩ := follow_of_silent stream place hrest (count + 1)
        (stream b ((count + 1) :: place)).rest
      refine ⟨?_, hlast⟩
      rw [follow, Event.items_append, hitems, List.append_nil]
      rfl

end Switch

/-! ## Flows -/

namespace Flow.IsOneShot

theorem just (a : α) : (Flow.just a).IsOneShot where
  rest := .ended
  items := .inr ⟨a, rfl, rfl⟩

/-- Nothing, and the end. -/
theorem ended : (⟨[], .ended⟩ : Flow α).IsOneShot where
  rest := .ended
  items := .inl rfl

theorem map {w : Flow α} (h : w.IsOneShot) (f : α → β) : (w.map f).IsOneShot where
  rest := h.rest.map f
  items := by
    rw [Flow.items, Flow.map, Event.items_map]
    rcases h.items with hnone | ⟨a, hone, hended⟩
    · exact .inl (by rw [← Flow.items, hnone, List.map_nil])
    · refine .inr ⟨f a, by rw [← Flow.items, hone, List.map_singleton], ?_⟩
      show w.rest.map f = .ended
      rw [hended]
      rfl

/-- Whatever a stream gives, its first item is all that is taken. -/
theorem first (w : Flow α) : w.first.IsOneShot := by
  cases h : w.items with
  | nil =>
    rw [first_of_silent h]
    exact ⟨.first w.rest, .inl h⟩
  | cons a more =>
    obtain ⟨hitems, hended⟩ := first_of_items h
    exact ⟨hended ▸ .ended, .inr ⟨a, hitems, hended⟩⟩

/-- What is taken from streams of at most one item: one item of each at most, and the stream has
ended with it. -/
theorem of_taken {sources : List (Flow α)} (h : ∀ w ∈ sources, w.IsOneShot) {ready : List Nat}
    (hready : ready.Nodup) {taken : List (Nat × α)}
    (htaken : taken = Event.items (Combine.interleave
      (ready.map fun i => (i, ((sources[i]?).map Flow.events).getD [])))) :
    (taken.map (·.1)).Nodup ∧ ∀ t ∈ taken, ∃ hi : t.1 < sources.length,
      (sources[t.1]).items = [t.2] ∧ (sources[t.1]).rest = .ended := by
  have hfrom (k : Nat) : Combine.takenFrom k taken =
      if k ∈ ready then Event.items (((sources[k]?).map Flow.events).getD []) else [] := by
    rw [htaken, Combine.takenFrom_interleave _ (by simpa [Function.comp_def] using hready),
      Combine.takenFrom_map hready]
    split
    · rw [List.flatMap_singleton]
    · rfl
  constructor
  · refine List.nodup_iff_count.2 fun k => ?_
    rw [← Combine.length_takenFrom, hfrom]
    split
    · cases hget : sources[k]? with
      | none => exact Nat.zero_le 1
      | some w =>
        show w.items.length ≤ 1
        rcases (h w (List.mem_of_getElem? hget)).items with hnone | ⟨a, hone, _⟩
        · rw [hnone]
          exact Nat.zero_le 1
        · rw [hone, List.length_singleton]
    · exact Nat.zero_le 1
  · intro t ht
    have hmem := Combine.mem_takenFrom ht
    rw [hfrom] at hmem
    split at hmem
    · cases hget : sources[t.1]? with
      | none =>
        rw [hget] at hmem
        cases hmem
      | some w =>
        obtain ⟨hi, rfl⟩ := List.getElem?_eq_some_iff.1 hget
        rw [hget] at hmem
        change t.2 ∈ (sources[t.1]).items at hmem
        refine ⟨hi, ?_⟩
        rcases (h _ (List.getElem_mem hi)).items with hnone | ⟨a, hone, hended⟩
        · rw [hnone] at hmem
          cases hmem
        · rw [hone, List.mem_singleton] at hmem
          exact ⟨hmem ▸ hone, hended⟩
    · cases hmem

/-- Streams that go on together. Those with a filled slot have ended before; when all slots are
filled, all streams have ended. -/
theorem combine (f : List α → β) {latest : List (Option α)} {sources : List (Flow α)}
    {ready : List Nat} (hlength : latest.length = sources.length) (hready : ready.Nodup)
    (h : ∀ w ∈ sources, w.IsOneShot)
    (hfilled : ∀ i (hi : i < sources.length) a, latest[i]? = some (some a) →
      sources[i] = ⟨[], .ended⟩) :
    (Flow.combine f latest sources ready).IsOneShot := by
  let events := Combine.interleave
    (ready.map fun i => (i, ((sources[i]?).map Flow.events).getD []))
  obtain ⟨hnodup, htaken⟩ := of_taken h hready (rfl : Event.items events = _)
  have hopen : ∀ t ∈ Event.items events, latest[t.1]? = some none := by
    intro t ht
    obtain ⟨hi, hone, _⟩ := htaken t ht
    cases hget : latest[t.1]? with
    | none =>
      rw [List.getElem?_eq_none_iff] at hget
      omega
    | some slot =>
      cases slot with
      | none => rfl
      | some a =>
        rw [hfilled t.1 hi a hget] at hone
        cases hone
  obtain ⟨hslots, hfrom⟩ := Combine.scan_slots f events latest
  have hended : ∀ i (hi : i < sources.length) a,
      (Combine.scan f events latest).2[i]? = some (some a) → (sources[i]).rest = .ended := by
    intro i hi a hget
    rcases hfrom i a hget with hbefore | hmem
    · rw [hfilled i hi a hbefore]
    · obtain ⟨_, _, hrest⟩ := htaken _ hmem
      exact hrest
  constructor
  case rest =>
    show (Rest.combine f (Combine.scan f events latest).2 (sources.map Flow.rest)).IsOneShot
    refine .combine f (by rw [hslots, hlength, List.length_map]) ?_ ?_
    · intro r hr
      obtain ⟨w, hw, rfl⟩ := List.mem_map.1 hr
      exact (h w hw).rest
    · intro i hi a hget
      rw [List.getElem_map]
      exact hended i (by rwa [List.length_map] at hi) a hget
  case items =>
    show Event.items (Combine.scan f events latest).1 = [] ∨ ∃ b,
      Event.items (Combine.scan f events latest).1 = [b] ∧
        Rest.combine f (Combine.scan f events latest).2 (sources.map Flow.rest) = .ended
    rcases Combine.scan_oneShot f hnodup hopen with hnone | ⟨values, hone, hall⟩
    · exact .inl hnone
    · refine .inr ⟨f values, hone, ?_⟩
      have hover : (sources.map Flow.rest).all Rest.isEnded = true := by
        refine List.all_eq_true.2 fun r hr => ?_
        obtain ⟨i, hi, rfl⟩ := List.mem_iff_getElem.1 hr
        rw [List.length_map] at hi
        have hvalues : i < values.length := by
          rw [hall, List.length_map] at hslots
          omega
        rw [List.getElem_map, hended i hi values[i] (by rw [hall]; simp [hvalues])]
        rfl
      rw [Rest.combine, if_pos hover]

/-- An outer flow and an inner one that go on together: one of them has ended before. -/
theorem switch {stream : α → Stream β} (h : ∀ a now p, (stream a now p).IsOneShot) (now : Snapshot)
    (place : Place) (count : Nat) {outer : Flow α} {inner : Flow β} (houter : outer.IsOneShot)
    (hinner : inner.IsOneShot) (hone : outer = ⟨[], .ended⟩ ∨ inner = ⟨[], .ended⟩) :
    (Flow.switch stream now place count outer inner).IsOneShot := by
  rcases hone with rfl | rfl
  · rw [Flow.switch_silent]
    refine ⟨.switch h .ended hinner.rest (.inl rfl), ?_⟩
    rcases hinner.items with hnone | ⟨b, hb, hended⟩
    · exact .inl hnone
    · refine .inr ⟨b, hb, ?_⟩
      rw [hended]
      rfl
  · have hswitch : Flow.switch stream now place count outer ⟨[], .ended⟩ =
        ⟨(Switch.follow (fun a p => stream a now p) place outer.events count .ended).1,
          .switch stream place
            (Switch.follow (fun a p => stream a now p) place outer.events count .ended).2.1 outer.rest
            (Switch.follow (fun a p => stream a now p) place outer.events count .ended).2.2⟩ := rfl
    rw [hswitch]
    rcases houter.items with hnone | ⟨a, ha, hended⟩
    · obtain ⟨hitems, hlast⟩ := Switch.follow_of_silent (fun a p => stream a now p) place hnone
        count .ended
      rw [hlast]
      exact ⟨.switch h houter.rest .ended (.inr rfl), .inl hitems⟩
    · obtain ⟨hitems, hlast⟩ := Switch.follow_of_item (fun a p => stream a now p) place ha count
        .ended
      have hstream := h a now ((count + 1) :: place)
      rw [hlast, hended]
      refine ⟨.switch h .ended hstream.rest (.inl rfl), ?_⟩
      show Event.items _ = [] ∨ ∃ b, Event.items _ = [b] ∧ _
      rw [hitems]
      rcases hstream.items with hnone | ⟨b, hb, hdone⟩
      · exact .inl hnone
      · refine .inr ⟨b, hb, ?_⟩
        rw [hdone]
        rfl

end Flow.IsOneShot

/-- Whatever is delivered, the stream stays one of at most one item. -/
theorem Rest.IsOneShot.resume {r : Rest α} (h : r.IsOneShot) (now : Snapshot)
    (deliveries : List Delivery) : (r.resume now deliveries).IsOneShot := by
  induction h with
  | ended =>
    rw [Rest.resume_ended]
    exact .ended
  | mapped f _ ih =>
    rw [Rest.resume]
    exact ih.map f
  | combined f hlength _ hfilled ih =>
    rw [Rest.resume]
    refine .combine f (by rw [hlength, List.length_ofFn]) (Delivery.woken_nodup _ _) ?_ ?_
    · intro w hw
      obtain ⟨i, rfl⟩ := List.mem_ofFn.1 hw
      exact ih i
    · intro i hi a hget
      rw [List.getElem_ofFn, hfilled ⟨i, by rwa [List.length_ofFn] at hi⟩ a hget,
        Rest.resume_ended]
  | @switched _ _ events rests _ _ _ _ hrests hitems _ _ hone _ ihouter ihinner =>
    have hstream a now p : (⟨events a now p, rests a now p⟩ : Flow _).IsOneShot :=
      ⟨hrests a now p, hitems a now p⟩
    rw [Rest.resume]
    refine .switch hstream now _ _ ihouter ihinner ?_
    rcases hone with rfl | rfl
    · exact .inl (Rest.resume_ended now deliveries)
    · exact .inr (Rest.resume_ended now deliveries)
  | firstOf source =>
    rw [Rest.resume]
    exact .first _

/-! ## Streams -/

/-- Wherever the stream is subscribed, it gives at most one item, and ends with it. -/
def Stream.IsOneShot (s : Stream α) : Prop := ∀ now place, (s now place).IsOneShot

namespace Stream.IsOneShot

theorem just (a : α) : (Stream.just a).IsOneShot := fun _ _ => .just a

theorem map {s : Stream α} (h : s.IsOneShot) (f : α → β) : (s.map f).IsOneShot :=
  fun now place => (h now place).map f

theorem first (s : Stream α) : s.first.IsOneShot := fun now place => .first (s now place)

theorem combineLatest (f : List α → β) {sources : List (Stream α)}
    (h : ∀ s ∈ sources, s.IsOneShot) : (Stream.combineLatest sources f).IsOneShot := by
  intro now place
  rw [Stream.combineLatest]
  split
  · exact .just _
  · refine .combine f (by rw [List.length_replicate, List.length_mapIdx]) List.nodup_range ?_ ?_
    · intro w hw
      obtain ⟨i, hi, rfl⟩ := List.mem_mapIdx.1 hw
      exact h _ (List.getElem_mem hi) now (i :: place)
    · intro i _ a hget
      rw [List.getElem?_replicate] at hget
      split at hget <;> cases hget

theorem switchMap {s : Stream α} {stream : α → Stream β} (hs : s.IsOneShot)
    (h : ∀ a, (stream a).IsOneShot) : (s.switchMap stream).IsOneShot :=
  fun now place => .switch h now place 0 (hs now (0 :: place)) .ended (.inr rfl)

end Stream.IsOneShot

/-! ## Sessions -/

namespace Session

/-- The stream has ended, and nothing is subscribed. -/
structure IsOver (s : Session α) : Prop where
  rest : s.rest = .ended
  feeds : s.feeds = []
  done : s.done = true

theorem settle_of_ended {w : Flow α} (h : w.rest = .ended) (feeds : List Feed) :
    settle feeds w = [] := by
  rw [settle, h, Rest.feeds]
  simp

namespace IsOver

variable {s : Session α}

/-- Nobody receives a signal. -/
theorem deliverAll (h : s.IsOver) (signal : Signal) (feeds : List Feed) :
    s.deliverAll signal feeds = (s, []) := by
  induction feeds with
  | nil => rfl
  | cons feed rest ih =>
    have hdeliver : s.deliver signal feed = (s, []) := by
      rw [deliver, h.feeds]
      rfl
    rw [Session.deliverAll, hdeliver]
    show ((s.deliverAll signal rest).1, [] ++ (s.deliverAll signal rest).2) = (s, [])
    rw [ih, List.nil_append]

/-- Only what is known of the sources may change. -/
theorem turn (h : s.IsOver) (t : Turn) :
    (s.turn t).2 = [] ∧ (s.turn t).1.IsOver ∧ (s.turn t).1.calls = s.calls := by
  have hset (source : String) (state : SourceState) : (s.setSource source state).IsOver :=
    ⟨h.rest, h.feeds, h.done⟩
  cases t with
  | push source value =>
    rw [Session.turn, push]
    split
    · exact ⟨rfl, hset source _, rfl⟩
    · rw [(hset source _).deliverAll]
      exact ⟨rfl, hset source _, rfl⟩
  | close source =>
    rw [Session.turn, close]
    dsimp only
    rw [(hset source _).deliverAll]
    exact ⟨rfl, hset source _, rfl⟩
  | cancel => exact ⟨rfl, ⟨rfl, rfl, h.done⟩, rfl⟩

theorem turnAll (h : s.IsOver) (turns : List Turn) :
    (s.turnAll turns).2 = [] ∧ (s.turnAll turns).1.IsOver ∧
      (s.turnAll turns).1.calls = s.calls := by
  induction turns generalizing s with
  | nil => exact ⟨rfl, h, rfl⟩
  | cons t rest ih =>
    obtain ⟨hitems, hover, hcalls⟩ := h.turn t
    obtain ⟨hmore, hover, hsame⟩ := ih hover
    rw [Session.turnAll]
    refine ⟨?_, hover, hsame.trans hcalls⟩
    show _ ++ _ = []
    rw [hitems, hmore, List.append_nil]

end IsOver

/-- A session after a step, with the items of the step: there is none and one may follow, or there is
one and the session is over. -/
def IsShot (x : Session α × List α) : Prop :=
  (x.2 = [] ∧ x.1.rest.IsOneShot) ∨ ∃ a, x.2 = [a] ∧ x.1.IsOver

namespace IsShot

/-- One step after the other. -/
theorem append {x y : Session α × List α} (hx : IsShot x) (hmore : x.1.rest.IsOneShot → IsShot y)
    (hover : x.1.IsOver → y.2 = [] ∧ y.1.IsOver) : IsShot (y.1, x.2 ++ y.2) := by
  rcases hx with ⟨hnone, hrest⟩ | ⟨a, hone, hdone⟩
  · rw [hnone, List.nil_append]
    exact hmore hrest
  · obtain ⟨hitems, hdone⟩ := hover hdone
    exact .inr ⟨a, by rw [hone, hitems, List.append_nil], hdone⟩

theorem of_flow {s : Session α} {w : Flow α} (h : w.IsOneShot) (hrest : s.rest = w.rest)
    {feeds : List Feed} (hfeeds : s.feeds = settle feeds w) (hdone : s.done = w.rest.isEnded) :
    IsShot (s, w.items) := by
  rcases h.items with hnone | ⟨a, hone, hended⟩
  · refine .inl ⟨hnone, ?_⟩
    rw [hrest]
    exact h.rest
  · refine .inr ⟨a, hone, ?_, ?_, ?_⟩
    · exact hrest.trans hended
    · exact hfeeds.trans (settle_of_ended hended feeds)
    · rw [hdone, hended]
      rfl

variable {s : Session α}

theorem deliver (h : s.rest.IsOneShot) (signal : Signal) (feed : Feed) :
    IsShot (s.deliver signal feed) := by
  rw [Session.deliver]
  split
  · exact of_flow (h.resume s.now [⟨feed.place, signal⟩]) rfl rfl rfl
  · exact .inl ⟨rfl, h⟩

theorem deliverAll (h : s.rest.IsOneShot) (signal : Signal) (feeds : List Feed) :
    IsShot (s.deliverAll signal feeds) := by
  induction feeds generalizing s with
  | nil => exact .inl ⟨rfl, h⟩
  | cons feed rest ih =>
    have hover (hover : (s.deliver signal feed).1.IsOver) :
        ((s.deliver signal feed).1.deliverAll signal rest).2 = [] ∧
          ((s.deliver signal feed).1.deliverAll signal rest).1.IsOver := by
      rw [hover.deliverAll]
      exact ⟨rfl, hover⟩
    exact (deliver h signal feed).append ih hover

theorem turn (h : s.rest.IsOneShot) (t : Turn) : IsShot (s.turn t) := by
  cases t with
  | push source value =>
    rw [Session.turn, push]
    split
    · exact .inl ⟨rfl, h⟩
    · exact deliverAll (s := s.setSource source _) h _ _
  | close source => exact deliverAll (s := s.setSource source _) h _ _
  | cancel => exact .inl ⟨rfl, .ended⟩

theorem turnAll (h : s.rest.IsOneShot) (turns : List Turn) : IsShot (s.turnAll turns) := by
  induction turns generalizing s with
  | nil => exact .inl ⟨rfl, h⟩
  | cons t rest ih =>
    refine (turn h t).append ih fun hover => ?_
    obtain ⟨hitems, hover, _⟩ := hover.turnAll rest
    exact ⟨hitems, hover⟩

end IsShot
end Session

/-- Over every run the stream gives nothing, or one item with which its session is over. -/
theorem Stream.IsOneShot.run {stream : Stream α} (h : stream.IsOneShot) (now : Snapshot)
    (turns : List Session.Turn) : Session.IsShot (Session.run stream now turns) := by
  have hstart : Session.IsShot (Session.start stream now) :=
    .of_flow (h now []) rfl rfl rfl
  refine hstart.append (fun hrest => .turnAll hrest turns) fun hover => ?_
  obtain ⟨hitems, hover, _⟩ := hover.turnAll turns
  exact ⟨hitems, hover⟩

end PolicyDecision
