import Mathlib.Logic.Function.Basic
import PolicyDecision.Proofs.Stream.Tracking

/-!
# PolicyDecision.Proofs.Stream.Delivery

One value for one subscription of a stream at rest.

* `Flow.combine_one`, `Flow.Emits.switch`: one of the streams has an item, the others are silent.
* `Tracks.resume_absent`: a delivery to no subscription changes nothing.
* `Advances`: a delivery to a subscription gives one item; after it the subscription is not stale.
* `Tracks.advances`: every subscription of a tracking stream advances it.
-/

namespace PolicyDecision

variable {α β : Type}

/-! ## Which streams are woken -/

namespace Delivery

theorem received_value (place : Place) (p : Place) (v : Val) :
    received place [⟨p, .value v⟩] = (if p = place then [v] else [], false) := by
  by_cases h : p = place <;> simp [received, h]

theorem woken_absent {n : Nat} {waiting : Fin n → List Feed} {p : Place} {signal : Signal}
    (h : ∀ i, ∀ φ ∈ waiting i, φ.place ≠ p) : woken (List.ofFn waiting) [⟨p, signal⟩] = [] := by
  have htarget : target? (List.ofFn waiting) ⟨p, signal⟩ = none := by
    rw [target?, List.findIdx?_eq_none_iff]
    intro feeds hfeeds
    obtain ⟨i, rfl⟩ := List.mem_ofFn.1 hfeeds
    simpa using h i
  simp [woken, htarget]

/-- A delivery is for the only stream that waits at its place. -/
theorem target?_eq {waiting : List (List Feed)} {φ : Feed} {i : Nat} {signal : Signal}
    (hi : i < waiting.length) (hφ : φ ∈ waiting[i])
    (h : ∀ j (hj : j < waiting.length), j ≠ i → ∀ ψ ∈ waiting[j], ψ.place ≠ φ.place) :
    target? waiting ⟨φ.place, signal⟩ = some i := by
  rw [target?, List.findIdx?_eq_some_iff_getElem]
  refine ⟨hi, ?_, ?_⟩
  · simp only [List.any_eq_true, beq_iff_eq]
    exact ⟨φ, hφ, rfl⟩
  · intro j hj
    simpa using h j (Nat.lt_trans hj hi) (Nat.ne_of_lt hj)

theorem woken_present {n : Nat} {waiting : Fin n → List Feed} {φ : Feed} {i : Fin n}
    {signal : Signal} (hφ : φ ∈ waiting i)
    (h : ∀ j, j ≠ i → ∀ ψ ∈ waiting j, ψ.place ≠ φ.place) :
    woken (List.ofFn waiting) [⟨φ.place, signal⟩] = [i.val] := by
  have htarget : target? (List.ofFn waiting) ⟨φ.place, signal⟩ = some i.val := by
    refine target?_eq (by simp) (by simpa using hφ) fun j hj hji => ?_
    have hne : (⟨j, by simpa using hj⟩ : Fin n) ≠ i := fun heq => hji (by rw [← heq])
    simpa using h _ hne
  simp [woken, htarget, List.eraseDups_cons]

end Delivery

/-! ## One item among several streams -/

namespace Flow

theorem combine_silent (f : List α → β) (latest : List (Option α)) (sources : List (Flow α)) :
    Flow.combine f latest sources [] = ⟨[], .combine f latest (sources.map Flow.rest)⟩ := by
  simp [Flow.combine, Combine.interleave, Combine.scan]

/-- Only the stream `i` has an item. -/
theorem combine_one (f : List α → β) {n : Nat} (latest : Fin n → α) (flows : Fin n → Flow α)
    {i : Fin n} {calls : List FinderCall} {a : α} (h : (flows i).events = Event.prompt calls a) :
    Flow.combine f (List.ofFn fun i => some (latest i)) (List.ofFn flows) [i.val] =
      ⟨Event.prompt calls (f (List.ofFn (Function.update latest i a))),
        .combine f (List.ofFn fun j => some (Function.update latest i a j))
          (List.ofFn fun j => (flows j).rest)⟩ := by
  have hevents : (((List.ofFn flows)[i.val]?).map Flow.events).getD [] = Event.prompt calls a := by
    simp [h]
  have hinter := Combine.interleave_prompt [(i.val, calls, a)] []
  have hset : (List.ofFn fun j => some (latest j)).set i.val (some a) =
      List.ofFn fun j => some (Function.update latest i a j) := by
    refine List.ext_getElem (by simp) fun j h₁ h₂ => ?_
    rw [List.getElem_set, List.getElem_ofFn, List.getElem_ofFn]
    by_cases hj : i.val = j
    · subst hj
      simp
    · have hne : (⟨j, by simpa using h₂⟩ : Fin n) ≠ i := fun heq => hj (by rw [← heq])
      rw [if_neg hj, Function.update_of_ne hne]
  have hall : Combine.allPresent (List.ofFn fun j => some (Function.update latest i a j)) =
      some (List.ofFn (Function.update latest i a)) := by
    have := Combine.allPresent_some (List.ofFn (Function.update latest i a))
    rwa [List.map_ofFn] at this
  simp only [List.map_cons, List.map_nil, List.append_nil, List.flatMap_cons,
    List.flatMap_nil] at hinter
  rw [Flow.combine]
  simp only [List.map_cons, List.map_nil, hevents, hinter, List.map_ofFn]
  rw [Event.prompt, Combine.scan_calls, Combine.scan, Combine.scan, hset, hall]
  rfl

/-- Without an outer item the inner stream goes on. -/
theorem switch_silent (stream : α → Stream β) (now : Snapshot) (place : Place) (count : Nat)
    (outer : Rest α) (inner : Flow β) :
    Flow.switch stream now place count ⟨[], outer⟩ inner =
      ⟨inner.events, .switch stream place count outer inner.rest⟩ := by
  simp [Flow.switch, Switch.follow]

namespace Emits

variable {before : List Feed} {calls : List FinderCall}

theorem map {a : α} {w : Flow α} (h : w.Emits before calls a) (f : α → β) :
    (w.map f).Emits before calls (f a) where
  events := by rw [Flow.map, h.events, Event.map_prompt]
  announced := by
    intro φ hφ
    rw [Flow.map, Rest.feeds_map] at hφ
    exact h.announced φ hφ

theorem mono {a : α} {w : Flow α} (h : w.Emits before calls a) {before' : List Feed}
    (hsub : before ⊆ before') : w.Emits before' calls a where
  events := h.events
  announced := by
    intro φ hφ
    rcases h.announced φ hφ with hold | hcall
    · exact .inl (hsub hold)
    · exact .inr hcall

/-- The stream of an outer item goes on in place of the inner one. -/
theorem switch_eq {outer : Flow α} {b : α} (h : outer.Emits before calls b)
    (stream : α → Stream β) (now : Snapshot) (place : Place) (count : Nat) (inner : Rest β) :
    Flow.switch stream now place count outer ⟨[], inner⟩ =
      ⟨calls.map .call ++ (stream b now ((count + 1) :: place)).events,
        .switch stream place (count + 1) outer.rest (stream b now ((count + 1) :: place)).rest⟩ := by
  rw [Flow.switch, h.events, Switch.follow_prompt]
  rfl

theorem switch {stream : α → Stream β} {now : Snapshot} {place : Place} {count : Nat}
    {outer : Flow α} {inner : Rest β} {inside : List FinderCall} {b : α} {a : β}
    (houter : outer.Emits before calls b)
    (hinner : (stream b now ((count + 1) :: place)).Emits [] inside a) :
    (Flow.switch stream now place count outer ⟨[], inner⟩).Emits before (calls ++ inside) a where
  events := by
    rw [houter.switch_eq]
    simp [hinner.events, Event.prompt]
  announced := by
    intro φ hφ
    rw [houter.switch_eq, Rest.mem_feeds_switch] at hφ
    rcases hφ with hφ | hφ
    · rcases houter.announced φ hφ with hφ | ⟨call, hcall, hplace⟩
      · exact .inl hφ
      · exact .inr ⟨call, List.mem_append_left _ hcall, hplace⟩
    · rcases hinner.announced φ hφ with hφ | ⟨call, hcall, hplace⟩
      · cases hφ
      · exact .inr ⟨call, List.mem_append_right _ hcall, hplace⟩

end Emits
end Flow

/-! ## Deliveries -/

namespace Tracks

variable {warm : String → Prop} {now : Snapshot} {stale : Feed → Prop} {place : Place}

/-- A delivery at a place without subscription changes nothing. -/
theorem resume_absent {value : Snapshot → α} {r : Rest α} {a : α}
    (h : Tracks warm now stale value place r a) (now' : Snapshot) (p : Place) (v : Val) :
    (∀ φ ∈ r.feeds, φ.place ≠ p) → r.resume now' [⟨p, .value v⟩] = ⟨[], r⟩ := by
  induction h with
  | ended _ =>
    intro _
    rw [Rest.resume]
  | awaiting _ _ =>
    intro hp
    have hne : p ≠ _ := (hp _ (Rest.mem_feeds_awaiting.2 rfl)).symm
    rw [Rest.resume, Delivery.received_value, if_neg hne]
    rfl
  | mapped f hended _ ih =>
    intro hp
    rw [Rest.resume, ih fun φ hφ => hp φ (Rest.mem_feeds_mapped.2 hφ), Flow.map, Rest.map, hended]
    rfl
  | @combined _ _ _ _ _ _ _ sources _ f i hended _ ih =>
    intro hp
    have hsilent : (fun j => (sources j).resume now' [⟨p, .value v⟩]) =
        fun j => ⟨[], sources j⟩ := by
      funext j
      exact ih j fun φ hφ => hp φ (Rest.mem_feeds_combined.2 ⟨j, hφ⟩)
    have hwoken : Delivery.woken (List.ofFn fun j => (sources j).feeds) [⟨p, .value v⟩] = [] :=
      Delivery.woken_absent fun j φ hφ => hp φ (Rest.mem_feeds_combined.2 ⟨j, hφ⟩)
    have hopen : ¬ ∀ j, (sources j).isEnded = true := by
      intro hall
      rw [hall i] at hended
      cases hended
    rw [Rest.resume]
    simp only [hsilent, hwoken]
    rw [Flow.combine_silent, List.map_ofFn]
    simp only [Function.comp_def]
    rw [Rest.combine_ofFn, if_neg hopen]
  | switched hended _ _ _ _ _ _ ihouter ihinner =>
    intro hp
    have houter := ihouter fun φ hφ => hp φ (Rest.mem_feeds_switched.2 (.inl hφ))
    have hinner := ihinner fun φ hφ => hp φ (Rest.mem_feeds_switched.2 (.inr hφ))
    rw [Rest.resume, houter, hinner]
    simp [Flow.switch, Switch.follow, Rest.switch, hended]

end Tracks

/-- What a subscription receives that is given the latest value of its source. -/
def Snapshot.delivery (now : Snapshot) (φ : Feed) : List Delivery :=
  [⟨φ.place, .value (now.latest φ.source)⟩]

/-- The delivery to `φ` gives one item, after which `φ` is not stale. -/
def Advances (warm : String → Prop) (now : Snapshot) (stale : Feed → Prop) (φ : Feed)
    (value : Snapshot → α) (place : Place) (r : Rest α) : Prop :=
  ∃ calls a, (r.resume now (now.delivery φ)).Emits r.feeds calls a ∧
    Tracks warm now (fun ψ => stale ψ ∧ ψ ≠ φ) value place (r.resume now (now.delivery φ)).rest a

namespace Advances

variable {warm : String → Prop} {now : Snapshot} {stale : Feed → Prop} {place : Place} {φ : Feed}

theorem awaiting (hwarm : warm φ.source) (read : Val → α) :
    Advances warm now stale φ (fun now' => read (now'.latest φ.source)) φ.place
      (.awaiting φ read) := by
  have hresume : (Rest.awaiting φ read).resume now (now.delivery φ) =
      ⟨[.item (read (now.latest φ.source))], .awaiting φ read⟩ := by
    rw [Snapshot.delivery, Rest.resume, Delivery.received_value, if_pos rfl]
    rfl
  refine ⟨[], read (now.latest φ.source), ⟨?_, ?_⟩, ?_⟩
  · rw [hresume]
    rfl
  · intro ψ hψ
    rw [hresume] at hψ
    exact .inl hψ
  · rw [hresume]
    exact .awaiting hwarm fun _ => rfl

theorem mapped {value : Snapshot → α} {source : Rest α} (f : α → β)
    (h : Advances warm now stale φ value place source) :
    Advances warm now stale φ (fun now' => f (value now')) place (.mapped f source) := by
  obtain ⟨calls, a, hemits, htracks⟩ := h
  unfold Advances
  rw [Rest.resume, Rest.feeds]
  exact ⟨calls, f a, hemits.map f, htracks.map f⟩

/-- Only the stream of the subscription has an item. -/
theorem combined {n : Nat} {values : Fin n → Snapshot → α} {sources : Fin n → Rest α}
    {latest : Fin n → α} (f : List α → β)
    (hsources : ∀ i, Tracks warm now stale (values i) (i :: place) (sources i) (latest i))
    {i : Fin n} (hi : φ ∈ (sources i).feeds)
    (h : Advances warm now stale φ (values i) (i :: place) (sources i)) :
    Advances warm now stale φ (fun now' => f (List.ofFn fun i => values i now')) place
      (.combined f (List.ofFn fun i => some (latest i)) n sources) := by
  obtain ⟨calls, b, hemits, htracks⟩ := h
  have hothers : ∀ j, j ≠ i → ∀ ψ ∈ (sources j).feeds, ψ.place ≠ φ.place := fun j hj ψ hψ =>
    (hsources j).places_ne (hsources i) (fun heq => hj (Fin.ext heq)) ψ hψ φ hi
  have hsilent : ∀ j, j ≠ i → (sources j).resume now (now.delivery φ) = ⟨[], sources j⟩ :=
    fun j hj => (hsources j).resume_absent now φ.place _ (hothers j hj)
  have hresume : (Rest.combined f (List.ofFn fun i => some (latest i)) n sources).resume now
      (now.delivery φ) = ⟨Event.prompt calls (f (List.ofFn (Function.update latest i b))),
        .combine f (List.ofFn fun j => some (Function.update latest i b j))
          (List.ofFn fun j => ((sources j).resume now (now.delivery φ)).rest)⟩ := by
    rw [Rest.resume, Snapshot.delivery, Delivery.woken_present hi hothers, ← Snapshot.delivery]
    exact Flow.combine_one f latest _ hemits.events
  unfold Advances
  rw [hresume]
  refine ⟨calls, f (List.ofFn (Function.update latest i b)), ⟨rfl, ?_⟩, .combine ?_ f⟩
  · intro ψ hψ
    obtain ⟨j, hj⟩ := Rest.mem_feeds_combine.1 hψ
    by_cases hji : j = i
    · subst hji
      rcases hemits.announced ψ hj with hold | hcall
      · exact .inl (Rest.mem_feeds_combined.2 ⟨j, hold⟩)
      · exact .inr hcall
    · rw [hsilent j hji] at hj
      exact .inl (Rest.mem_feeds_combined.2 ⟨j, hj⟩)
  · intro j
    by_cases hji : j = i
    · subst hji
      rw [Function.update_self]
      exact htracks
    · rw [hsilent j hji, Function.update_of_ne hji]
      exact (hsources j).pass (hothers j hji)

section Switch

variable {value : Snapshot → α} {values : α → Snapshot → β} {stream : α → Stream β} {count : Nat}
  {outer : Rest α} {inner : Rest β} {b : α} {a : β}

/-- The outer item leaves the inner stream, stale or not. -/
theorem switched_outer (hcount : 0 < count)
    (hemits : ∀ c now' p, now'.IsWarm warm →
      ∃ calls, (stream c now' p).Emits [] calls (values c now'))
    (hrests : ∀ c now' p, now'.IsWarm warm →
      Tracks warm now' (fun _ => False) (values c) p (stream c now' p).rest (values c now'))
    (hnow : now.IsWarm warm) (houter : Tracks warm now stale value (0 :: place) outer b)
    (hinner : Tracks warm now stale (values b) (count :: place) inner a) (hφ : φ ∈ outer.feeds)
    (h : Advances warm now stale φ value (0 :: place) outer) :
    Advances warm now stale φ (fun now' => values (value now') now') place
      (.switched (fun c now' p => (stream c now' p).events) (fun c now' p => (stream c now' p).rest)
        place count outer inner) := by
  obtain ⟨calls, b', hitem, htracks⟩ := h
  obtain ⟨inside, hinside⟩ := hemits b' now ((count + 1) :: place) hnow
  have hsilent : inner.resume now (now.delivery φ) = ⟨[], inner⟩ :=
    hinner.resume_absent now φ.place _ fun ψ hψ =>
      hinner.places_ne houter (Nat.ne_of_gt hcount) ψ hψ φ hφ
  unfold Advances
  rw [Rest.resume, Rest.feeds, hsilent]
  refine ⟨calls ++ inside, _, (hitem.mono (List.subset_append_left _ _)).switch hinside, ?_⟩
  rw [hitem.switch_eq]
  exact .switch (Nat.succ_pos count) hemits hrests htracks
    (hrests b' now ((count + 1) :: place) hnow).fresh

theorem switched_inner (hcount : 0 < count)
    (hemits : ∀ c now' p, now'.IsWarm warm →
      ∃ calls, (stream c now' p).Emits [] calls (values c now'))
    (hrests : ∀ c now' p, now'.IsWarm warm →
      Tracks warm now' (fun _ => False) (values c) p (stream c now' p).rest (values c now'))
    (houter : Tracks warm now stale value (0 :: place) outer b)
    (hinner : Tracks warm now stale (values b) (count :: place) inner a) (hφ : φ ∈ inner.feeds)
    (h : Advances warm now stale φ (values b) (count :: place) inner) :
    Advances warm now stale φ (fun now' => values (value now') now') place
      (.switched (fun c now' p => (stream c now' p).events) (fun c now' p => (stream c now' p).rest)
        place count outer inner) := by
  obtain ⟨calls, a', hitem, htracks⟩ := h
  have hothers : ∀ ψ ∈ outer.feeds, ψ.place ≠ φ.place := fun ψ hψ =>
    houter.places_ne hinner (Nat.ne_of_lt hcount) ψ hψ φ hφ
  have hsilent : outer.resume now (now.delivery φ) = ⟨[], outer⟩ :=
    houter.resume_absent now φ.place _ hothers
  unfold Advances
  rw [Rest.resume, Rest.feeds, hsilent, Flow.switch_silent]
  refine ⟨calls, a', ⟨hitem.events, ?_⟩, .switch hcount hemits hrests (houter.pass hothers) htracks⟩
  intro ψ hψ
  rcases Rest.mem_feeds_switch.1 hψ with hψ | hψ
  · exact .inl (List.mem_append_left _ hψ)
  · rcases hitem.announced ψ hψ with hold | hcall
    · exact .inl (List.mem_append_right _ hold)
    · exact .inr hcall

end Switch
end Advances

/-- The latest value of its source, delivered to a subscription, gives one item; the subscription is
not stale after it. -/
theorem Tracks.advances {warm : String → Prop} {now : Snapshot} {stale : Feed → Prop}
    {place : Place} {value : Snapshot → α} {r : Rest α} {a : α}
    (h : Tracks warm now stale value place r a) (hnow : now.IsWarm warm) :
    ∀ φ ∈ r.feeds, Advances warm now stale φ value place r := by
  induction h with
  | ended _ =>
    intro φ hφ
    exact absurd hφ Rest.not_mem_feeds_ended
  | awaiting hwarm _ =>
    intro φ hφ
    rw [Rest.mem_feeds_awaiting] at hφ
    subst hφ
    exact .awaiting hwarm _
  | mapped f _ _ ih =>
    intro φ hφ
    exact .mapped f (ih hnow φ (Rest.mem_feeds_mapped.1 hφ))
  | combined f _ _ hsources ih =>
    intro φ hφ
    obtain ⟨i, hi⟩ := Rest.mem_feeds_combined.1 hφ
    exact .combined f hsources hi (ih i hnow φ hi)
  | switched _ hcount hemits hrests houter hinner _ ihouter ihinner =>
    intro φ hφ
    rcases Rest.mem_feeds_switched.1 hφ with hφ | hφ
    · exact .switched_outer hcount hemits hrests hnow houter hinner hφ (ihouter hnow φ hφ)
    · exact .switched_inner hcount hemits hrests houter hinner hφ (ihinner hnow φ hφ)

end PolicyDecision
