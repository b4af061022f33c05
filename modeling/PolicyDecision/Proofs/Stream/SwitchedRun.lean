import PolicyDecision.Proofs.Stream.Emission
import PolicyDecision.Proofs.Stream.Polling
import PolicyDecision.Proofs.Stream.Switching

/-!
# PolicyDecision.Proofs.Stream.SwitchedRun

A switch over channels that are written in batches.

* `ChannelRun.follow_chooseAll`: the outer items of a batch, each with the channel it stands for.
* `ChannelRun.Switches`: what a history of sends and closings makes of the switch.
* `Switches.start`, `Switches.apply`: it begins so, and a batch keeps it.
* `ChannelRun.switched_exact`: all items over all batches.
-/

namespace PolicyDecision

namespace Channel

open ChannelEvent (sentTo)

/-- The stream of an outer item as it is received. -/
def streamOf (v : Val) : Stream Val :=
  match v.number?.bind Number.nat? with
  | some n => stream n
  | none => .ofList []

theorem switching_eq : switching = (stream 0).switchMap streamOf := rfl

/-- What waits for the channel of an outer item, if it has one. -/
def innerReceiver (events : List ChannelEvent) (place : Nat) (c : Option Nat) : Rest Val :=
  c.elim .ended (receiver events place)

/-- After a batch the last outer item of it is followed, or else the channel from before. -/
theorem innerReceiver_append (n : Nat) (events batch : List ChannelEvent) :
    (picks n (usedBy n [0] (sentTo 0 events)) (news events 0 batch)).getLast?.elim
        (innerReceiver (events ++ batch) (sentTo 0 events).length (current n events))
        (innerReceiver (events ++ batch)
          ((sentTo 0 events).length + (news events 0 batch).length)) =
      innerReceiver (events ++ batch) (sentTo 0 (events ++ batch)).length
        (current n (events ++ batch)) := by
  have hlength : (picks n (usedBy n [0] (sentTo 0 events)) (news events 0 batch)).length =
      (news events 0 batch).length := length_picks _ _
  rw [current_append, sentTo_append_news, List.length_append]
  generalize picks n (usedBy n [0] (sentTo 0 events)) (news events 0 batch) = added at hlength ⊢
  cases hlast : added.getLast? with
  | none =>
    rw [List.getLast?_eq_none_iff.1 hlast] at hlength
    rw [← hlength]
    rfl
  | some c => rfl

end Channel

open Channel (pick picks usedBy current news streamOf receiver innerReceiver)
open ChannelEvent (sentTo closes)

namespace ChannelRun

/-! ## Outer items as they are received -/

theorem choose_eq (run : ChannelRun Val) (used : List Nat) (item : Json) :
    run.choose used item = ((pick run.count used item).elim .undefined fun _ => .defined item,
      (pick run.count used item).toList ++ used) := by
  rw [choose, pick]
  cases item.number?.bind Number.nat? with
  | none => rfl
  | some n =>
    simp only [Option.filter]
    by_cases h : (n < run.count && !used.contains n) = true
    · rw [if_pos h, if_pos h]
      rfl
    · rw [if_neg h, if_neg h]
      rfl

/-- An item that stands for a channel is received as it is, any other one as undefined. -/
theorem streamOf_choose (run : ChannelRun Val) (used : List Nat) (item : Json) :
    streamOf (run.choose used item).1 =
      (pick run.count used item).elim (.ofList []) Channel.stream := by
  rw [choose_eq]
  cases hpick : pick run.count used item with
  | none => rfl
  | some c =>
    rw [pick, Option.filter_eq_some_iff] at hpick
    have hv : (Val.defined item).number?.bind Number.nat? = some c := hpick.1
    show streamOf (.defined item) = _
    rw [streamOf, hv]
    rfl

theorem chooseAll_snd (run : ChannelRun Val) (used : List Nat) (items : List Json) :
    (run.chooseAll used items).2 = usedBy run.count used items := by
  induction items generalizing used with
  | nil => rfl
  | cons item rest ih =>
    rw [chooseAll, usedBy, choose_eq]
    exact ih _

section Follow

variable {now : Snapshot} {events : List ChannelEvent} {used : List Nat}

/-- What a channel carries, and what waits for it then. -/
theorem streamOf_choose_apply (run : ChannelRun Val)
    (hnow : ∀ c, c ∉ used →
      now (Channel.source c) = ⟨(sentTo c events).map .defined, closes c events⟩)
    (item : Json) (place : Nat) :
    streamOf (run.choose used item).1 now [place] =
      ⟨(((pick run.count used item).elim [] fun c => sentTo c events).map Val.defined).map .item,
        innerReceiver events place (pick run.count used item)⟩ := by
  rw [streamOf_choose]
  cases hpick : pick run.count used item with
  | none => rfl
  | some c => exact Channel.stream_eq (hnow c (Channel.not_mem_of_pick hpick)) place

/-- The outer items of a batch, each with what its channel carries. -/
theorem follow_chooseAll (run : ChannelRun Val)
    (hnow : ∀ c, c ∉ used →
      now (Channel.source c) = ⟨(sentTo c events).map .defined, closes c events⟩)
    (items : List Json) (count : Nat) (r : Rest Val) :
    let w := Switch.follow (fun v p => streamOf v now p) []
      ((run.chooseAll used items).1.map .item) count r
    Event.items w.1 = ((picks run.count used items).flatMap fun c =>
        c.elim [] fun c => sentTo c events).map .defined ∧
      w.2 = (count + items.length,
        (picks run.count used items).getLast?.elim r
          (innerReceiver events (count + items.length))) := by
  induction items generalizing used count r with
  | nil => exact ⟨rfl, rfl⟩
  | cons item rest ih =>
    have hstream := streamOf_choose_apply run hnow item (count + 1)
    have hused : ∀ c, c ∉ (pick run.count used item).toList ++ used →
        now (Channel.source c) = ⟨(sentTo c events).map .defined, closes c events⟩ :=
      fun c hc => hnow c fun hold => hc (List.mem_append_right _ hold)
    obtain ⟨hitems, hlast⟩ := ih hused (count + 1)
      (innerReceiver events (count + 1) (pick run.count used item))
    have hsnd : (run.choose used item).2 = (pick run.count used item).toList ++ used := by
      rw [choose_eq]
    have hcount : count + 1 + rest.length = count + (rest.length + 1) := by omega
    simp only [chooseAll, List.map_cons, Switch.follow, hstream, hsnd, picks, List.flatMap_cons,
      List.map_append, Event.items_append, Event.items_map_item, hitems, hlast, List.length_cons,
      List.getLast?_cons, hcount, true_and]
    cases hrest : (picks run.count ((pick run.count used item).toList ++ used) rest).getLast? with
    | none =>
      rw [List.getLast?_eq_none_iff] at hrest
      have hlength : (picks run.count ((pick run.count used item).toList ++ used) rest).length =
          rest.length := Channel.length_picks _ _
      rw [hrest] at hlength
      rw [← hlength]
      rfl
    | some c => rfl

end Follow

/-! ## Histories -/

/-- A switch over `n` channels after some events. -/
structure Switches (n : Nat) (events : List ChannelEvent) (run : ChannelRun Val) : Prop where
  count : run.count = n
  closed : ∀ c, run.closed.contains c = closes c events
  taken : run.taken = usedBy n [0] (sentTo 0 events)
  backlog : ∀ c, c ∉ run.taken → run.backlog c = (sentTo c events).map .defined
  rest : run.rest = .switch streamOf [] (sentTo 0 events).length (receiver events 0 0)
    (innerReceiver events (sentTo 0 events).length (current n events))

namespace Switches

variable {n c : Nat} {events : List ChannelEvent} {run : ChannelRun Val}

theorem mem_feeds (h : run.Switches n events) {φ : Feed} : φ ∈ run.rest.feeds ↔
    closes 0 events = false ∧ φ = ⟨[0], Channel.source 0⟩ ∨
      ∃ c, current n events = some c ∧ closes c events = false ∧
        φ = ⟨[(sentTo 0 events).length], Channel.source c⟩ := by
  rw [h.rest, Rest.mem_feeds_switch, Channel.mem_feeds_receiver]
  refine or_congr_right ?_
  cases current n events with
  | none => simp [innerReceiver, Rest.feeds]
  | some c => simp [innerReceiver, Channel.mem_feeds_receiver]

theorem zero_mem (h : run.Switches n events) : 0 ∈ run.taken := by
  rw [h.taken, Channel.mem_usedBy]
  exact .inl (List.mem_singleton_self 0)

theorem current_mem (h : run.Switches n events) (hc : current n events = some c) :
    c ∈ run.taken := by
  rw [h.taken, Channel.mem_usedBy]
  exact .inr (Channel.mem_picks_of_current hc)

theorem feed?_outer (h : run.Switches n events) (hopen : closes 0 events = false) :
    run.feed? 0 = some ⟨[0], Channel.source 0⟩ := by
  refine feed?_eq_some (h.mem_feeds.2 (.inl ⟨hopen, rfl⟩)) rfl fun ψ hψ hsource => ?_
  rcases h.mem_feeds.1 hψ with ⟨_, rfl⟩ | ⟨c, hc, _, rfl⟩
  · rfl
  · exact absurd (Channel.source_injective hsource) (Channel.ne_zero_of_current hc)

theorem feed?_inner (h : run.Switches n events) (hc : current n events = some c)
    (hopen : closes c events = false) :
    run.feed? c = some ⟨[(sentTo 0 events).length], Channel.source c⟩ := by
  refine feed?_eq_some (h.mem_feeds.2 (.inr ⟨c, hc, hopen, rfl⟩)) rfl fun ψ hψ hsource => ?_
  rcases h.mem_feeds.1 hψ with ⟨_, rfl⟩ | ⟨d, _, _, rfl⟩
  · exact absurd (Channel.source_injective hsource).symm (Channel.ne_zero_of_current hc)
  · rw [Channel.source_injective hsource]

theorem feed?_isSome_iff (h : run.Switches n events) : (run.feed? c).isSome = true ↔
    (c = 0 ∨ current n events = some c) ∧ closes c events = false := by
  constructor
  · intro hsome
    obtain ⟨φ, hφ⟩ := Option.isSome_iff_exists.1 hsome
    obtain ⟨hmem, hsource⟩ := mem_feeds_of_feed? hφ
    rcases h.mem_feeds.1 hmem with ⟨hopen, rfl⟩ | ⟨d, hd, hopen, rfl⟩
    · obtain rfl := Channel.source_injective hsource
      exact ⟨.inl rfl, hopen⟩
    · obtain rfl := Channel.source_injective hsource
      exact ⟨.inr hd, hopen⟩
  · rintro ⟨rfl | hc, hopen⟩
    · rw [h.feed?_outer hopen]
      rfl
    · rw [h.feed?_inner hc hopen]
      rfl

theorem feed?_fresh (h : run.Switches n events) (hc : c ∉ run.taken) : run.feed? c = none := by
  rw [← Option.not_isSome_iff_eq_none, h.feed?_isSome_iff]
  rintro ⟨rfl | hcurrent, _⟩
  · exact hc h.zero_mem
  · exact hc (h.current_mem hcurrent)

theorem hasPlaces (h : run.Switches n events) : run.HasPlaces := by
  intro c d φ ψ hφ hψ hplace
  obtain ⟨hφ, hc⟩ := mem_feeds_of_feed? hφ
  obtain ⟨hψ, hd⟩ := mem_feeds_of_feed? hψ
  rcases h.mem_feeds.1 hφ with ⟨_, rfl⟩ | ⟨i, hi, _, rfl⟩ <;>
    rcases h.mem_feeds.1 hψ with ⟨_, rfl⟩ | ⟨j, hj, _, rfl⟩
  · exact Channel.source_injective (hc.symm.trans hd)
  · exact absurd (List.cons.inj hplace).1 (Nat.ne_of_lt (Channel.length_pos_of_current hj))
  · exact absurd (List.cons.inj hplace).1.symm (Nat.ne_of_lt (Channel.length_pos_of_current hi))
  · obtain rfl : i = j := Option.some.inj (hi.symm.trans hj)
    exact Channel.source_injective (hc.symm.trans hd)

section Batch

variable {i : Intake Val} {batch : List ChannelEvent}

/-- What the outer receiver gets in a batch. -/
theorem resume_outer (h : run.Switches n events) (hheard : run.Heard true batch i)
    (now : Snapshot) :
    (receiver events 0 0).resume now i.deliveries =
      ⟨(run.chooseAll run.taken (news events 0 batch)).1.map .item,
        receiver (events ++ batch) 0 0⟩ :=
  hheard.resume_receiver (h.closed 0) h.feed?_outer now

/-- What the inner receiver gets in a batch. -/
theorem resume_inner (h : run.Switches n events) (hheard : run.Heard true batch i)
    (now : Snapshot) :
    (innerReceiver events (sentTo 0 events).length (current n events)).resume now i.deliveries =
      ⟨(((current n events).elim [] fun c => news events c batch).map Val.defined).map .item,
        innerReceiver (events ++ batch) (sentTo 0 events).length (current n events)⟩ := by
  cases hc : current n events with
  | none =>
    rw [innerReceiver, Option.elim_none, Rest.resume]
    rfl
  | some c =>
    have hvalues (items : List Json) : run.values true c items = items.map .defined := by
      simp [values, Channel.ne_zero_of_current hc]
    have hresume := hheard.resume_receiver (h.closed c) (h.feed?_inner hc) now
    rw [hvalues] at hresume
    exact hresume

/-- What a channel that is not handed out is known to carry. -/
theorem snapshot_fresh (h : run.Switches n events) (hheard : run.Heard true batch i)
    (hc : c ∉ run.taken) : i.after.snapshot (Channel.source c) =
      ⟨(sentTo c (events ++ batch)).map .defined, closes c (events ++ batch)⟩ := by
  have hzero : c ≠ 0 := by
    rintro rfl
    exact hc h.zero_mem
  rw [snapshot_source, hheard.backlog c (h.feed?_fresh hc) hc, hheard.closed, h.closed,
    h.backlog c hc, ChannelEvent.closes_append, ChannelEvent.sentTo_append]
  simp [values, hzero]

theorem promised_eq (h : run.Switches n events) (hheard : run.Heard true batch i) :
    i.promised = usedBy n [0] (sentTo 0 (events ++ batch)) := by
  rw [Channel.sentTo_append_news, Channel.usedBy_append, ← h.taken, news]
  cases hclosed : closes 0 events with
  | true => exact hheard.kept ((h.closed 0).trans hclosed)
  | false =>
    rw [hheard.promised ((h.closed 0).trans hclosed), promisedBy, if_pos rfl, chooseAll_snd,
      h.count]
    rfl

end Batch

/-- A batch: first what the current channel carries, then the outer items. -/
theorem apply (h : run.Switches n events) (batch : List ChannelEvent) :
    (run.apply true batch).1.Switches n (events ++ batch) ∧
      (run.apply true batch).2.items =
        ((current n events).elim [] (fun c => news events c batch) ++
          (picks n (usedBy n [0] (sentTo 0 events)) (news events 0 batch)).flatMap fun c =>
            c.elim [] fun c => sentTo c (events ++ batch)).map .defined := by
  let i := run.collect true batch
  let added := picks n (usedBy n [0] (sentTo 0 events)) (news events 0 batch)
  let carried := (current n events).elim [] fun c => news events c batch
  have hheard : run.Heard true batch i := heard_collect h.hasPlaces true batch
  have hresume : run.rest.resume i.after.snapshot i.deliveries =
      Flow.switch streamOf i.after.snapshot [] (sentTo 0 events).length
        ⟨(run.chooseAll run.taken (news events 0 batch)).1.map .item,
          receiver (events ++ batch) 0 0⟩
        ⟨(carried.map Val.defined).map .item,
          innerReceiver (events ++ batch) (sentTo 0 events).length (current n events)⟩ := by
    rw [h.rest, Rest.resume_switch, h.resume_outer hheard, h.resume_inner hheard]
  obtain ⟨hitems, hlast⟩ := follow_chooseAll run (fun c hc => h.snapshot_fresh hheard hc)
    (news events 0 batch) (sentTo 0 events).length
    (innerReceiver (events ++ batch) (sentTo 0 events).length (current n events))
  have hadded : picks run.count run.taken (news events 0 batch) = added := by
    rw [h.count, h.taken]
  rw [hadded] at hitems hlast
  constructor
  · constructor
    case count => exact hheard.count.trans h.count
    case closed =>
      intro c
      rw [ChannelEvent.closes_append, ← h.closed c]
      exact hheard.closed c
    case taken => exact h.promised_eq hheard
    case backlog =>
      intro c hc
      have hfresh : c ∉ run.taken := by
        intro hold
        refine hc ?_
        show c ∈ i.promised
        rw [h.taken, Channel.mem_usedBy] at hold
        rw [h.promised_eq hheard, Channel.sentTo_append_news, Channel.usedBy_append,
          Channel.mem_usedBy, Channel.mem_usedBy]
        exact .inl hold
      have hsnapshot := h.snapshot_fresh hheard hfresh
      rw [snapshot_source] at hsnapshot
      exact congrArg SourceState.backlog hsnapshot
    case rest =>
      show (run.rest.resume i.after.snapshot i.deliveries).rest = _
      rw [hresume]
      show Rest.switch streamOf [] (Switch.follow _ _ _ _ _).2.1 _ (Switch.follow _ _ _ _ _).2.2 = _
      rw [hlast]
      dsimp only
      rw [Channel.innerReceiver_append, Channel.sentTo_append_news, List.length_append]
  · show (run.rest.resume i.after.snapshot i.deliveries).items = _
    rw [hresume]
    show Event.items (_ ++ (Switch.follow _ _ _ _ _).1) = _
    rw [Event.items_append, Event.items_map_item, hitems, ← List.map_append]

/-- Before the first batch there is no outer item. -/
theorem start (n : Nat) :
    (start Channel.switching n [0]).1.Switches n [] ∧
      (ChannelRun.start Channel.switching n [0]).2.items = [] := by
  let run : ChannelRun Val := ⟨n, .ended, [], [0], fun _ => []⟩
  have hnow : run.snapshot (Channel.source 0) = ⟨[], closes 0 []⟩ := snapshot_source run 0
  have hflow : Channel.switching run.snapshot [] =
      ⟨[], .switch streamOf [] 0 (receiver [] 0 0) .ended⟩ := by
    rw [Channel.switching_eq, Stream.switchMap, Channel.stream_eq hnow]
    rfl
  constructor
  · constructor
    case count => rfl
    case closed => exact fun _ => rfl
    case taken => rfl
    case backlog => exact fun _ _ => rfl
    case rest =>
      show (Channel.switching run.snapshot []).rest = _
      rw [hflow]
      rfl
  · show (Channel.switching run.snapshot []).items = _
    rw [hflow]
    rfl

/-- After any number of batches. -/
theorem follow (n : Nat) (batches : List (List ChannelEvent)) :
    (follow Channel.switching n [0] true batches).1.Switches n batches.flatten ∧
      (ChannelRun.follow Channel.switching n [0] true batches).2 =
        (Channel.switched n batches).map .defined := by
  induction batches using List.reverseRecOn with
  | nil =>
    obtain ⟨hswitches, hitems⟩ := start n
    rw [follow_nil]
    exact ⟨hswitches, hitems⟩
  | append_singleton batches batch ih =>
    obtain ⟨hswitches, hitems⟩ := ih.1.apply batch
    rw [follow_concat, List.flatten_concat]
    refine ⟨hswitches, ?_⟩
    rw [ih.2, hitems, ← List.map_append, Channel.switched_concat, List.append_assoc]

theorem isEnded_iff (h : run.Switches n events) : run.rest.isEnded = true ↔
    closes 0 events = true ∧ ∀ c, current n events = some c → closes c events = true := by
  rw [h.rest, Rest.isEnded_switch, Bool.and_eq_true, Channel.isEnded_receiver]
  refine and_congr_right fun _ => ?_
  cases current n events with
  | none => simp [innerReceiver, Rest.isEnded]
  | some c => simp [innerReceiver, Channel.isEnded_receiver]

/-- The receivers that can still get something: that of the outer channel, the current one, and
those that were not handed out. -/
theorem isOpen_iff (h : run.Switches n events) : run.isOpen c = true ↔
    closes c events = false ∧ run.rest.isEnded = false ∧
      (c = 0 ∨ current n events = some c ∨ some c ∉ picks n [0] (sentTo 0 events)) := by
  have htaken : c ∉ run.taken ↔ c ≠ 0 ∧ some c ∉ picks n [0] (sentTo 0 events) := by
    rw [h.taken, Channel.mem_usedBy, List.mem_singleton, not_or]
  rw [isOpen, Bool.and_eq_true, Bool.and_eq_true, Bool.or_eq_true, h.feed?_isSome_iff, h.closed]
  simp only [Bool.not_eq_true', List.contains_eq_mem, decide_eq_false_iff_not, htaken]
  by_cases hzero : c = 0 <;> simp +contextual [hzero, and_assoc]

end Switches
end ChannelRun

/-! ## Streams that are always ready -/

namespace Stream

variable {α β : Type}

/-- A switch over lists gives all of them, one after the other. -/
theorem switchMap_ofList (items : List α) (lists : α → List β) (now : Snapshot) (place : Place) :
    ((ofList items).switchMap (fun a => ofList (lists a)) now place).items = items.flatMap lists ∧
      ((ofList items).switchMap (fun a => ofList (lists a)) now place).rest = .ended := by
  have hfollow (count : Nat) :
      let w := Switch.follow (fun a p => ofList (lists a) now p) place (items.map .item) count
        .ended
      Event.items w.1 = items.flatMap lists ∧ w.2.2 = .ended := by
    induction items generalizing count with
    | nil => exact ⟨rfl, rfl⟩
    | cons a rest ih =>
      obtain ⟨hitems, hrest⟩ := ih (count + 1)
      refine ⟨?_, hrest⟩
      show Event.items ((lists a).map .item ++ _) = _
      rw [Event.items_append, Event.items_map_item, List.flatMap_cons]
      exact congrArg _ hitems
  obtain ⟨hitems, hrest⟩ := hfollow 0
  exact ⟨hitems, congrArg (Rest.switch (fun a => ofList (lists a)) place _ .ended) hrest⟩

end Stream

/-- A switch gives exactly what it has to give: over channels after every batch, as the loop that
polls its streams, and over lists. A receiver that was replaced is dropped. -/
theorem ChannelRun.switched_exact (n : Nat) :
    (∀ batches : List (List ChannelEvent),
      let w := follow Channel.switching n [0] true batches
      w.2 = (Channel.switched n batches).map .defined ∧
        (w.1.rest.isEnded = true ↔ closes 0 batches.flatten = true ∧
          ∀ c, current n batches.flatten = some c → closes c batches.flatten = true) ∧
        (∀ c, w.1.isOpen c = true ↔ closes c batches.flatten = false ∧ w.1.rest.isEnded = false ∧
          (c = 0 ∨ current n batches.flatten = some c ∨
            some c ∉ picks n [0] (sentTo 0 batches.flatten))) ∧
        ∀ c, some c ∈ picks n [0] (sentTo 0 batches.flatten) →
          current n batches.flatten ≠ some c → w.1.isOpen c = false) ∧
    (∀ {α β : Type} (source : Stream α) (stream : α → Stream β) (now : Snapshot) (place : Place),
      SwitchLoop.Gives stream now place ⟨some (source now (0 :: place)), none, 0⟩
        (source.switchMap stream now place)) ∧
    (∀ {α β : Type} (stream : α → Stream β) (place : Place) (s : SwitchLoop α β) (r : Rest β),
      SwitchLoop.Follows stream place s r → s.isDone = r.isEnded ∧
        ∀ now deliveries, SwitchLoop.Gives stream now place (s.resume now deliveries)
          (r.resume now deliveries)) ∧
    (∀ {α β : Type} (items : List α) (lists : α → List β) (now : Snapshot) (place : Place),
      let w := (Stream.ofList items).switchMap (fun a => Stream.ofList (lists a)) now place
      w.items = items.flatMap lists ∧ w.rest = .ended) := by
  refine ⟨fun batches => ?_, SwitchLoop.gives_switchMap, fun stream place s r h =>
    ⟨h.isDone_eq, h.resume⟩, Stream.switchMap_ofList⟩
  obtain ⟨hswitches, hitems⟩ := Switches.follow n batches
  refine ⟨hitems, hswitches.isEnded_iff, fun c => hswitches.isOpen_iff, fun c hpick hother => ?_⟩
  rw [Bool.eq_false_iff]
  intro hopen
  obtain ⟨_, _, rfl | hcurrent | hfresh⟩ := hswitches.isOpen_iff.1 hopen
  · exact Channel.not_mem_of_mem_picks hpick (List.mem_singleton_self 0)
  · exact hother hcurrent
  · exact hfresh hpick

end PolicyDecision
