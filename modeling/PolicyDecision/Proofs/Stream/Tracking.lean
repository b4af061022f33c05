import PolicyDecision.Proofs.Stream.Prompt

/-!
# PolicyDecision.Proofs.Stream.Tracking

Streams at rest beside the value that a new subscription would begin with.

While a new value of a source is delivered, some subscriptions have it and others do not: the items of a
stream mix old values with new ones. `Tracks` says what is right in such a state: whatever depends
on no stale subscription is up to date, and the stream that an outer item stands for is the stream of
that item, also if the item itself is out of date.

* `Snapshot.IsWarm`: some sources hold a value and are open.
* `Flow.Emits`: a flow of one item that announces its new subscriptions.
* `Tracks`: the invariant, over the tree of a stream at rest.
* `Tracks.map`, `Tracks.combine`, `Tracks.switch`: the combinators keep it.
* `Tracks.value_eq`: without stale subscriptions, the last item is the value under the snapshot.
-/

namespace PolicyDecision

/-- The latest value of a source. -/
def Snapshot.latest (now : Snapshot) (source : String) : Val :=
  (now source).backlog.headD .undefined

/-- The warm sources hold a value and are open. -/
def Snapshot.IsWarm (warm : String → Prop) (now : Snapshot) : Prop :=
  ∀ source, warm source → now source = ⟨[now.latest source], false⟩

/-- A flow with one item, after its calls. Its subscriptions were there before, or a call at their place
has made them. -/
structure Flow.Emits {α : Type} (before : List Feed) (calls : List FinderCall) (a : α)
    (w : Flow α) : Prop where
  events : w.events = Event.prompt calls a
  announced : ∀ φ ∈ w.rest.feeds, φ ∈ before ∨ ∃ call ∈ calls, call.place = φ.place

/-- A stream at rest, the last item of which is `a`. A new subscription of the stream under a
snapshot begins with `value`. A stale subscription has not received the latest value of its source. -/
inductive Tracks (warm : String → Prop) :
    Snapshot → (Feed → Prop) → {α : Type} → (Snapshot → α) → Place → Rest α → α → Prop
  | ended {now : Snapshot} {stale : Feed → Prop} {α : Type} {value : Snapshot → α} {place : Place}
      {a : α} :
    (∀ now', now'.IsWarm warm → value now' = a) → Tracks warm now stale value place .ended a
  | awaiting {now : Snapshot} {stale : Feed → Prop} {α : Type} {feed : Feed} {read : Val → α}
      {a : α} :
    warm feed.source → (¬ stale feed → a = read (now.latest feed.source)) →
    Tracks warm now stale (fun now' => read (now'.latest feed.source)) feed.place
      (.awaiting feed read) a
  | mapped {now : Snapshot} {stale : Feed → Prop} {α β : Type} {value : Snapshot → α}
      {place : Place} {source : Rest α} {b : α} (f : α → β) :
    source.isEnded = false → Tracks warm now stale value place source b →
    Tracks warm now stale (fun now' => f (value now')) place (.mapped f source) (f b)
  | combined {now : Snapshot} {stale : Feed → Prop} {α β : Type} {size : Nat}
      {values : Fin size → Snapshot → α} {place : Place} {sources : Fin size → Rest α}
      {latest : Fin size → α} (f : List α → β) (i : Fin size) :
    (sources i).isEnded = false →
    (∀ i, Tracks warm now stale (values i) (i :: place) (sources i) (latest i)) →
    Tracks warm now stale (fun now' => f (List.ofFn fun i => values i now')) place
      (.combined f (List.ofFn fun i => some (latest i)) size sources) (f (List.ofFn latest))
  | switched {now : Snapshot} {stale : Feed → Prop} {α β : Type} {value : Snapshot → α}
      {values : α → Snapshot → β} {place : Place} {stream : α → Stream β} {count : Nat}
      {outer : Rest α} {inner : Rest β} {b : α} {a : β} :
    (outer.isEnded && inner.isEnded) = false → 0 < count →
    (∀ c now' p, now'.IsWarm warm → ∃ calls, (stream c now' p).Emits [] calls (values c now')) →
    (∀ c now' p, now'.IsWarm warm →
      Tracks warm now' (fun _ => False) (values c) p (stream c now' p).rest (values c now')) →
    Tracks warm now stale value (0 :: place) outer b →
    Tracks warm now stale (values b) (count :: place) inner a →
    Tracks warm now stale (fun now' => values (value now') now') place
      (.switched (fun c now' p => (stream c now' p).events) (fun c now' p => (stream c now' p).rest)
        place count outer inner) a

/-! ## Subscriptions of combined streams -/

namespace Rest

variable {α β : Type}

theorem feeds_map (f : α → β) (r : Rest α) : (r.map f).feeds = r.feeds := by
  unfold map
  split
  · rename_i h
    rw [feeds_of_isEnded h, feeds]
  · rw [feeds]

/-- A combination that goes on, by the streams it is made of. -/
theorem combine_ofFn (f : List α → β) (latest : List (Option α)) {n : Nat}
    (sources : Fin n → Rest α) :
    Rest.combine f latest (List.ofFn sources) =
      if ∀ i, (sources i).isEnded = true then .ended else .combined f latest n sources := by
  have hcast : ∀ (l : List (Rest α)) (h : l.length = n), (∀ i : Fin n, l[i] = sources i) →
      Rest.combined f latest l.length (fun i => l[i]) = .combined f latest n sources := by
    intro l h hl
    subst h
    congr
    funext i
    exact hl i
  unfold combine
  by_cases hall : ∀ i, (sources i).isEnded = true
  · rw [if_pos hall, if_pos]
    simpa [List.all_eq_true, List.mem_ofFn] using hall
  · rw [if_neg hall, if_neg]
    · exact hcast _ (List.length_ofFn) fun i => by simp
    · simpa [List.all_eq_true, List.mem_ofFn] using hall

theorem not_mem_feeds_ended {φ : Feed} : φ ∉ (Rest.ended : Rest α).feeds := by
  rw [feeds]
  exact List.not_mem_nil

theorem mem_feeds_awaiting {feed φ : Feed} {read : Val → α} :
    φ ∈ (Rest.awaiting feed read).feeds ↔ φ = feed := by
  rw [feeds, List.mem_singleton]

theorem mem_feeds_mapped {f : α → β} {source : Rest α} {φ : Feed} :
    φ ∈ (Rest.mapped f source).feeds ↔ φ ∈ source.feeds := by
  rw [feeds]

theorem mem_feeds_combined {f : List α → β} {latest : List (Option α)} {n : Nat}
    {sources : Fin n → Rest α} {φ : Feed} :
    φ ∈ (Rest.combined f latest n sources).feeds ↔ ∃ i, φ ∈ (sources i).feeds := by
  rw [feeds, List.mem_flatten]
  constructor
  · rintro ⟨l, hl, hφ⟩
    obtain ⟨i, rfl⟩ := List.mem_ofFn.1 hl
    exact ⟨i, hφ⟩
  · rintro ⟨i, hφ⟩
    exact ⟨_, List.mem_ofFn.2 ⟨i, rfl⟩, hφ⟩

theorem mem_feeds_combine {f : List α → β} {latest : List (Option α)} {n : Nat}
    {sources : Fin n → Rest α} {φ : Feed} :
    φ ∈ (Rest.combine f latest (List.ofFn sources)).feeds ↔ ∃ i, φ ∈ (sources i).feeds := by
  rw [combine_ofFn]
  split
  · rename_i hall
    constructor
    · intro h
      exact absurd h not_mem_feeds_ended
    · rintro ⟨i, hi⟩
      rw [feeds_of_isEnded (hall i)] at hi
      cases hi
  · exact mem_feeds_combined

theorem mem_feeds_switched {events : α → Snapshot → Place → List (Event β)}
    {rests : α → Snapshot → Place → Rest β} {place : Place} {count : Nat} {outer : Rest α}
    {inner : Rest β} {φ : Feed} :
    φ ∈ (Rest.switched events rests place count outer inner).feeds ↔
      φ ∈ outer.feeds ∨ φ ∈ inner.feeds := by
  rw [feeds, List.mem_append]

theorem mem_feeds_switch {stream : α → Stream β} {place : Place} {count : Nat} {outer : Rest α}
    {inner : Rest β} {φ : Feed} :
    φ ∈ (Rest.switch stream place count outer inner).feeds ↔ φ ∈ outer.feeds ∨ φ ∈ inner.feeds := by
  unfold switch
  split
  · rename_i h
    rw [Bool.and_eq_true] at h
    rw [feeds_of_isEnded h.1, feeds_of_isEnded h.2, feeds]
    simp
  · exact mem_feeds_switched

end Rest

/-! ## The combinators -/

namespace Tracks

variable {warm : String → Prop} {now now' : Snapshot} {stale stale' : Feed → Prop} {α β : Type}
  {place : Place}

theorem value_of_isEnded {value : Snapshot → α} {r : Rest α} {a : α}
    (h : Tracks warm now stale value place r a) (hr : r.isEnded = true) :
    ∀ now', now'.IsWarm warm → value now' = a := by
  cases h with
  | ended hvalue => exact hvalue
  | _ => cases hr

theorem map {value : Snapshot → α} {r : Rest α} {a : α}
    (h : Tracks warm now stale value place r a) (f : α → β) :
    Tracks warm now stale (fun now' => f (value now')) place (r.map f) (f a) := by
  unfold Rest.map
  split
  · rename_i hr
    refine .ended ?_
    intro now' hnow'
    rw [h.value_of_isEnded hr now' hnow']
  · rename_i hr
    exact .mapped f (Bool.eq_false_iff.2 hr) h

theorem combine {n : Nat} {values : Fin n → Snapshot → α} {sources : Fin n → Rest α}
    {latest : Fin n → α}
    (h : ∀ i, Tracks warm now stale (values i) (i :: place) (sources i) (latest i))
    (f : List α → β) :
    Tracks warm now stale (fun now' => f (List.ofFn fun i => values i now')) place
      (Rest.combine f (List.ofFn fun i => some (latest i)) (List.ofFn sources))
      (f (List.ofFn latest)) := by
  rw [Rest.combine_ofFn]
  split
  · rename_i hall
    refine .ended ?_
    intro now' hnow'
    have hvalues : (fun i => values i now') = latest := by
      funext i
      exact (h i).value_of_isEnded (hall i) now' hnow'
    rw [hvalues]
  · rename_i hall
    obtain ⟨i, hi⟩ := Classical.not_forall.1 hall
    exact .combined f i (Bool.eq_false_iff.2 hi) h

theorem switch {value : Snapshot → α} {values : α → Snapshot → β} {stream : α → Stream β}
    {count : Nat} {outer : Rest α} {inner : Rest β} {b : α} {a : β} (hcount : 0 < count)
    (hemits : ∀ c now' p, now'.IsWarm warm →
      ∃ calls, (stream c now' p).Emits [] calls (values c now'))
    (hrests : ∀ c now' p, now'.IsWarm warm →
      Tracks warm now' (fun _ => False) (values c) p (stream c now' p).rest (values c now'))
    (houter : Tracks warm now stale value (0 :: place) outer b)
    (hinner : Tracks warm now stale (values b) (count :: place) inner a) :
    Tracks warm now stale (fun now' => values (value now') now') place
      (.switch stream place count outer inner) a := by
  unfold Rest.switch
  split
  · rename_i h
    rw [Bool.and_eq_true] at h
    refine .ended ?_
    intro now' hnow'
    rw [houter.value_of_isEnded h.1 now' hnow']
    exact hinner.value_of_isEnded h.2 now' hnow'
  · rename_i h
    exact .switched (Bool.eq_false_iff.2 h) hcount hemits hrests houter hinner

/-! ## What holds of the subscriptions -/

theorem suffix {value : Snapshot → α} {r : Rest α} {a : α}
    (h : Tracks warm now stale value place r a) : ∀ φ ∈ r.feeds, place <:+ φ.place := by
  induction h with
  | ended _ =>
    intro φ hφ
    exact absurd hφ Rest.not_mem_feeds_ended
  | awaiting _ _ =>
    intro φ hφ
    rw [Rest.mem_feeds_awaiting] at hφ
    subst hφ
    exact List.suffix_rfl
  | mapped f _ _ ih =>
    intro φ hφ
    exact ih φ (Rest.mem_feeds_mapped.1 hφ)
  | combined f _ _ _ ih =>
    intro φ hφ
    obtain ⟨i, hφ⟩ := Rest.mem_feeds_combined.1 hφ
    exact (List.suffix_cons _ _).trans (ih i φ hφ)
  | switched _ _ _ _ _ _ _ ihouter ihinner =>
    intro φ hφ
    rcases Rest.mem_feeds_switched.1 hφ with hφ | hφ
    · exact (List.suffix_cons _ _).trans (ihouter φ hφ)
    · exact (List.suffix_cons _ _).trans (ihinner φ hφ)

theorem warm_source {value : Snapshot → α} {r : Rest α} {a : α}
    (h : Tracks warm now stale value place r a) : ∀ φ ∈ r.feeds, warm φ.source := by
  induction h with
  | ended _ =>
    intro φ hφ
    exact absurd hφ Rest.not_mem_feeds_ended
  | awaiting hwarm _ =>
    intro φ hφ
    rw [Rest.mem_feeds_awaiting] at hφ
    rw [hφ]
    exact hwarm
  | mapped f _ _ ih =>
    intro φ hφ
    exact ih φ (Rest.mem_feeds_mapped.1 hφ)
  | combined f _ _ _ ih =>
    intro φ hφ
    obtain ⟨i, hφ⟩ := Rest.mem_feeds_combined.1 hφ
    exact ih i φ hφ
  | switched _ _ _ _ _ _ _ ihouter ihinner =>
    intro φ hφ
    rcases Rest.mem_feeds_switched.1 hφ with hφ | hφ
    · exact ihouter φ hφ
    · exact ihinner φ hφ

/-- Without stale subscriptions, the last item is the one that a new subscription begins with. -/
theorem value_eq {value : Snapshot → α} {r : Rest α} {a : α}
    (h : Tracks warm now stale value place r a) (hnow : now.IsWarm warm)
    (hstale : ∀ φ ∈ r.feeds, ¬ stale φ) : a = value now := by
  induction h with
  | ended hvalue => exact (hvalue _ hnow).symm
  | awaiting _ hread =>
    exact hread (hstale _ (Rest.mem_feeds_awaiting.2 rfl))
  | mapped f _ _ ih =>
    rw [ih hnow fun φ hφ => hstale φ (Rest.mem_feeds_mapped.2 hφ)]
  | combined f _ _ _ ih =>
    congr
    funext i
    exact ih i hnow fun φ hφ => hstale φ (Rest.mem_feeds_combined.2 ⟨i, hφ⟩)
  | switched _ _ _ _ _ _ _ ihouter ihinner =>
    have hb := ihouter hnow fun φ hφ => hstale φ (Rest.mem_feeds_switched.2 (.inl hφ))
    have ha := ihinner hnow fun φ hφ => hstale φ (Rest.mem_feeds_switched.2 (.inr hφ))
    rw [ha, hb]

/-- A subscription that is not stale may not become out of date; else the snapshot may change, and
subscriptions may become stale. -/
theorem weaken {value : Snapshot → α} {r : Rest α} {a : α}
    (h : Tracks warm now stale value place r a) (now' : Snapshot) (stale' : Feed → Prop) :
    (∀ φ ∈ r.feeds, ¬ stale' φ → ¬ stale φ ∧ now'.latest φ.source = now.latest φ.source) →
    Tracks warm now' stale' value place r a := by
  induction h with
  | ended hvalue =>
    intro _
    exact .ended hvalue
  | awaiting hwarm hread =>
    intro hfeeds
    refine .awaiting hwarm fun hnot => ?_
    obtain ⟨hfresh, hlatest⟩ := hfeeds _ (Rest.mem_feeds_awaiting.2 rfl) hnot
    rw [hlatest]
    exact hread hfresh
  | mapped f hended _ ih =>
    intro hfeeds
    exact .mapped f hended (ih fun φ hφ => hfeeds φ (Rest.mem_feeds_mapped.2 hφ))
  | combined f i hended _ ih =>
    intro hfeeds
    exact .combined f i hended fun j =>
      ih j fun φ hφ => hfeeds φ (Rest.mem_feeds_combined.2 ⟨j, hφ⟩)
  | switched hended hcount hemits hrests _ _ _ ihouter ihinner =>
    intro hfeeds
    refine .switched hended hcount hemits hrests (ihouter fun φ hφ => ?_)
      (ihinner fun φ hφ => ?_)
    · exact hfeeds φ (Rest.mem_feeds_switched.2 (.inl hφ))
    · exact hfeeds φ (Rest.mem_feeds_switched.2 (.inr hφ))

/-- Places below different positions of one place are different. -/
theorem index_eq_of_suffix {m n : Nat} {p : Place} (hm : m :: place <:+ p) (hn : n :: place <:+ p) :
    m = n := by
  have heq := List.suffix_or_suffix_of_suffix hm hn
  have h : m :: place = n :: place := by
    rcases heq with h | h
    · exact h.eq_of_length (by simp)
    · exact (h.eq_of_length (by simp)).symm
  exact (List.cons.inj h).1

/-- Subscriptions at other places than that of `φ` stay as they are. -/
theorem pass {value : Snapshot → α} {r : Rest α} {a : α}
    (h : Tracks warm now stale value place r a) {φ : Feed} (hφ : ∀ ψ ∈ r.feeds, ψ.place ≠ φ.place) :
    Tracks warm now (fun ψ => stale ψ ∧ ψ ≠ φ) value place r a := by
  refine h.weaken now _ fun ψ hψ hnot => ⟨fun hstale => hnot ⟨hstale, ?_⟩, rfl⟩
  intro heq
  exact hφ ψ hψ (by rw [heq])

/-- A new stream, none of the subscriptions of which is stale. -/
theorem fresh {value : Snapshot → α} {r : Rest α} {a : α}
    (h : Tracks warm now (fun _ => False) value place r a) :
    Tracks warm now stale value place r a :=
  h.weaken now _ fun _ _ _ => ⟨id, rfl⟩

/-- Streams at different positions of one place have different subscriptions. -/
theorem places_ne {value : Snapshot → α} {value' : Snapshot → β} {m n : Nat} {r : Rest α}
    {r' : Rest β} {a : α} {b : β} (h : Tracks warm now stale value (m :: place) r a)
    (h' : Tracks warm now stale value' (n :: place) r' b) (hmn : m ≠ n) :
    ∀ φ ∈ r.feeds, ∀ ψ ∈ r'.feeds, φ.place ≠ ψ.place := by
  intro φ hφ ψ hψ hplace
  have hbelow := h.suffix φ hφ
  rw [hplace] at hbelow
  exact hmn (index_eq_of_suffix hbelow (h'.suffix ψ hψ))

/-- Subscriptions have places of their own. -/
theorem eq_of_place_eq {value : Snapshot → α} {r : Rest α} {a : α}
    (h : Tracks warm now stale value place r a) :
    ∀ φ ∈ r.feeds, ∀ ψ ∈ r.feeds, φ.place = ψ.place → φ = ψ := by
  induction h with
  | ended _ =>
    intro φ hφ
    exact absurd hφ Rest.not_mem_feeds_ended
  | awaiting _ _ =>
    intro φ hφ ψ hψ _
    rw [Rest.mem_feeds_awaiting] at hφ hψ
    rw [hφ, hψ]
  | mapped f _ _ ih =>
    intro φ hφ ψ hψ hplace
    exact ih φ (Rest.mem_feeds_mapped.1 hφ) ψ (Rest.mem_feeds_mapped.1 hψ) hplace
  | combined f _ _ hsources ih =>
    intro φ hφ ψ hψ hplace
    obtain ⟨i, hφ⟩ := Rest.mem_feeds_combined.1 hφ
    obtain ⟨j, hψ⟩ := Rest.mem_feeds_combined.1 hψ
    by_cases hij : i = j
    · subst hij
      exact ih i φ hφ ψ hψ hplace
    · have hne := (hsources i).places_ne (hsources j) (Fin.val_ne_of_ne hij) φ hφ ψ hψ
      exact absurd hplace hne
  | switched _ hcount _ _ houter hinner _ ihouter ihinner =>
    intro φ hφ ψ hψ hplace
    rcases Rest.mem_feeds_switched.1 hφ with hφ | hφ <;>
      rcases Rest.mem_feeds_switched.1 hψ with hψ | hψ
    · exact ihouter φ hφ ψ hψ hplace
    · exact absurd hplace (houter.places_ne hinner (Nat.ne_of_lt hcount) φ hφ ψ hψ)
    · exact absurd hplace (hinner.places_ne houter (Nat.ne_of_gt hcount) φ hφ ψ hψ)
    · exact ihinner φ hφ ψ hψ hplace

end Tracks
end PolicyDecision
