import Std.Data.String.ToNat
import Mathlib.Data.List.Induction
import PolicyDecision.Proofs.Stream.Emission
import PolicyDecision.Stream.Channel

/-!
# PolicyDecision.Proofs.Stream.Batches

Batches of sends and closings, and what a stream over channels receives of them.

* `ChannelEvent.sentTo`, `ChannelEvent.closes`: what some events say about one channel.
* `Channel.receiver`: what waits for a channel after some events.
* `ChannelRun.follow`: a stream over channels under some batches, with all of its items.
* `ChannelRun.Heard`: what has become of the first events of a batch, channel by channel.
  `Heard.receive` shows that one more event keeps it, `heard_collect` that a whole batch does, and
  `Heard.resume_receiver` what a receiver makes of it.
-/

namespace PolicyDecision

/-! ## Events -/

namespace ChannelEvent

/-- What a channel carries: the items that are sent before it is closed. -/
def sentTo (c : Nat) : List ChannelEvent → List Json
  | [] => []
  | e :: rest =>
    if e.channel = c then
      match e.sent with
      | some item => item :: sentTo c rest
      | none => []
    else sentTo c rest

def closes (c : Nat) (events : List ChannelEvent) : Bool :=
  events.any fun e => e.channel == c && e.sent.isNone

variable {c : Nat} {e : ChannelEvent} {events : List ChannelEvent}

theorem closes_append (events more : List ChannelEvent) :
    closes c (events ++ more) = (closes c events || closes c more) := List.any_append

theorem sentTo_append (events more : List ChannelEvent) :
    sentTo c (events ++ more) =
      sentTo c events ++ if closes c events then [] else sentTo c more := by
  induction events with
  | nil => simp [sentTo, closes]
  | cons e rest ih =>
    by_cases hc : e.channel = c
    · cases hsent : e.sent with
      | none => simp [sentTo, closes, hc, hsent]
      | some item => simpa [sentTo, closes, hc, hsent] using ih
    · simpa [sentTo, closes, hc] using ih

/-- An event of another channel, or one behind the closing, does not matter. -/
theorem sentTo_concat_of_irrelevant (h : e.channel ≠ c ∨ closes c events = true) :
    sentTo c (events ++ [e]) = sentTo c events ∧ closes c (events ++ [e]) = closes c events := by
  rw [sentTo_append, closes_append]
  rcases h with h | h
  · simp [sentTo, closes, h]
  · simp [h]

theorem sentTo_concat_send {item : Json} (hc : e.channel = c) (hsent : e.sent = some item)
    (hopen : closes c events = false) :
    sentTo c (events ++ [e]) = sentTo c events ++ [item] ∧ closes c (events ++ [e]) = false := by
  rw [sentTo_append, closes_append]
  simp [sentTo, closes, hc, hsent]
  simpa [closes] using hopen

theorem sentTo_concat_close (hc : e.channel = c) (hsent : e.sent = none) :
    sentTo c (events ++ [e]) = sentTo c events ∧ closes c (events ++ [e]) = true := by
  rw [sentTo_append, closes_append]
  simp [sentTo, closes, hc, hsent]

end ChannelEvent

namespace Delivery

theorem received_append (place : Place) (deliveries more : List Delivery) :
    received place (deliveries ++ more) =
      if (received place deliveries).2 then received place deliveries
      else ((received place deliveries).1 ++ (received place more).1, (received place more).2) := by
  induction deliveries with
  | nil => simp [received]
  | cons d rest ih =>
    by_cases hd : d.place = place
    · cases hsignal : d.signal with
      | closed => simp [received, hd, hsignal]
      | value v =>
        simp only [List.cons_append, received, hd, hsignal, if_true, ih]
        split <;> rfl
    · simpa [received, hd] using ih

end Delivery

namespace Channel

theorem source_injective {c d : Nat} (h : source c = source d) : c = d := Nat.repr_inj.1 h

/-- What waits at a place for a channel: nothing once it is closed. -/
def receiver (events : List ChannelEvent) (place c : Nat) : Rest Val :=
  if ChannelEvent.closes c events then .ended else .awaiting ⟨[place], source c⟩ id

theorem isEnded_receiver (events : List ChannelEvent) (place c : Nat) :
    (receiver events place c).isEnded = ChannelEvent.closes c events := by
  rw [receiver]
  cases ChannelEvent.closes c events <;> rfl

theorem mem_feeds_receiver {events : List ChannelEvent} {place c : Nat} {φ : Feed} :
    φ ∈ (receiver events place c).feeds ↔
      ChannelEvent.closes c events = false ∧ φ = ⟨[place], source c⟩ := by
  rw [receiver]
  cases ChannelEvent.closes c events <;> simp [Rest.feeds]

/-- A new receiver begins with what was kept for it. -/
theorem stream_eq {now : Snapshot} {c : Nat} {backlog : List Val} {events : List ChannelEvent}
    (h : now (source c) = ⟨backlog, ChannelEvent.closes c events⟩) (place : Nat) :
    stream c now [place] = ⟨backlog.map .item, receiver events place c⟩ := by
  rw [stream, Stream.live, h]
  rfl

end Channel

namespace ChannelRun

open ChannelEvent (sentTo closes)

variable {α : Type} {run : ChannelRun α} {choosing : Bool}

/-! ## Batches one after the other -/

def applyAll (run : ChannelRun α) (choosing : Bool) :
    List (List ChannelEvent) → ChannelRun α × List α
  | [] => (run, [])
  | batch :: rest =>
    let (run, w) := run.apply choosing batch
    let (run, more) := run.applyAll choosing rest
    (run, w.items ++ more)

/-- A stream over channels after some batches, and all items that it gave. -/
def follow (stream : Stream α) (count : Nat) (taken : List Nat) (choosing : Bool)
    (batches : List (List ChannelEvent)) : ChannelRun α × List α :=
  let (run, w) := start stream count taken
  let (run, more) := run.applyAll choosing batches
  (run, w.items ++ more)

theorem applyAll_concat (run : ChannelRun α) (batches : List (List ChannelEvent))
    (batch : List ChannelEvent) : run.applyAll choosing (batches ++ [batch]) =
      (((run.applyAll choosing batches).1.apply choosing batch).1,
        (run.applyAll choosing batches).2 ++
          ((run.applyAll choosing batches).1.apply choosing batch).2.items) := by
  induction batches generalizing run with
  | nil => simp [applyAll]
  | cons first rest ih => simp [applyAll, ih]

theorem follow_nil (stream : Stream α) (count : Nat) (taken : List Nat) :
    follow stream count taken choosing [] =
      ((start stream count taken).1, (start stream count taken).2.items) := by
  simp [follow, applyAll]

theorem follow_concat (stream : Stream α) (count : Nat) (taken : List Nat)
    (batches : List (List ChannelEvent)) (batch : List ChannelEvent) :
    follow stream count taken choosing (batches ++ [batch]) =
      (((follow stream count taken choosing batches).1.apply choosing batch).1,
        (follow stream count taken choosing batches).2 ++
          ((follow stream count taken choosing batches).1.apply choosing batch).2.items) := by
  simp [follow, applyAll_concat]

/-! ## Receivers -/

theorem snapshot_source (run : ChannelRun α) (c : Nat) :
    run.snapshot (Channel.source c) = ⟨run.backlog c, run.closed.contains c⟩ := by
  have hname : (Channel.source c).toNat? = some c := Nat.toNat?_repr c
  rw [snapshot, hname]

/-- The receiver of a channel, if the stream has no other one for it. -/
theorem feed?_eq_some {c : Nat} {φ : Feed} (hmem : φ ∈ run.rest.feeds)
    (hsource : φ.source = Channel.source c)
    (hunique : ∀ ψ ∈ run.rest.feeds, ψ.source = Channel.source c → ψ = φ) :
    run.feed? c = some φ := by
  cases hfind : run.feed? c with
  | none =>
    rw [feed?, List.find?_eq_none] at hfind
    exact absurd (beq_iff_eq.2 hsource) (hfind φ hmem)
  | some ψ =>
    rw [feed?] at hfind
    have hψ := List.find?_some hfind
    rw [hunique ψ (List.mem_of_find?_eq_some hfind) (beq_iff_eq.1 hψ)]

theorem mem_feeds_of_feed? {c : Nat} {φ : Feed} (h : run.feed? c = some φ) :
    φ ∈ run.rest.feeds ∧ φ.source = Channel.source c := by
  rw [feed?] at h
  have hsource := List.find?_some h
  exact ⟨List.mem_of_find?_eq_some h, beq_iff_eq.1 hsource⟩

/-! ## One batch -/

/-- The items of a switch as they are received, and the channels handed out after them. -/
def chooseAll (run : ChannelRun α) : List Nat → List Json → List Val × List Nat
  | promised, [] => ([], promised)
  | promised, item :: rest =>
    let (v, promised) := run.choose promised item
    let (more, promised) := run.chooseAll promised rest
    (v :: more, promised)

/-- What is received of the items of a channel. -/
def values (run : ChannelRun α) (choosing : Bool) (c : Nat) (items : List Json) : List Val :=
  if choosing && c == 0 then (run.chooseAll run.taken items).1 else items.map .defined

theorem chooseAll_concat (run : ChannelRun α) (promised : List Nat) (items : List Json)
    (item : Json) : run.chooseAll promised (items ++ [item]) =
      ((run.chooseAll promised items).1 ++
          [(run.choose (run.chooseAll promised items).2 item).1],
        (run.choose (run.chooseAll promised items).2 item).2) := by
  induction items generalizing promised with
  | nil => rfl
  | cons first rest ih => simp [chooseAll, ih]

/-- The channels handed out after the items of channel 0. -/
def promisedBy (run : ChannelRun α) (choosing : Bool) (items : List Json) : List Nat :=
  if choosing then (run.chooseAll run.taken items).2 else run.taken

theorem values_concat (run : ChannelRun α) (choosing : Bool) (c : Nat) (items : List Json)
    (item : Json) : run.values choosing c (items ++ [item]) =
      run.values choosing c items ++
        [(run.read choosing (run.promisedBy choosing items) c item).1] := by
  cases choosing with
  | false => simp [values, read]
  | true =>
    by_cases hc : c = 0
    · simp [values, promisedBy, read, hc, chooseAll_concat]
    · simp [values, read, hc]

theorem promisedBy_concat (run : ChannelRun α) (choosing : Bool) (items : List Json) (item : Json) :
    run.promisedBy choosing (items ++ [item]) =
      (run.read choosing (run.promisedBy choosing items) 0 item).2 := by
  cases choosing with
  | false => rfl
  | true => simp [promisedBy, read, chooseAll_concat]

/-- What has become of the first events of a batch. -/
structure Heard (run : ChannelRun α) (choosing : Bool) (events : List ChannelEvent)
    (i : Intake α) : Prop where
  count : i.after.count = run.count
  closed : ∀ c, i.after.closed.contains c = (run.closed.contains c || closes c events)
  promised : run.closed.contains 0 = false →
    i.promised = run.promisedBy choosing (sentTo 0 events)
  kept : run.closed.contains 0 = true → i.promised = run.taken
  received : ∀ c φ, run.feed? c = some φ → run.closed.contains c = false →
    Delivery.received φ.place i.deliveries =
      (run.values choosing c (sentTo c events), closes c events)
  backlog : ∀ c, run.feed? c = none → c ∉ run.taken → i.after.backlog c =
    run.backlog c ++
      run.values choosing c (if run.closed.contains c then [] else sentTo c events)

/-- Different receivers have different places. -/
def HasPlaces (run : ChannelRun α) : Prop :=
  ∀ c d φ ψ, run.feed? c = some φ → run.feed? d = some ψ → φ.place = ψ.place → c = d

namespace Heard

variable {events : List ChannelEvent} {i : Intake α} {e : ChannelEvent}

theorem start (run : ChannelRun α) (choosing : Bool) :
    run.Heard choosing [] { after := run, promised := run.taken } where
  count := rfl
  closed c := by simp [closes]
  promised _ := by cases choosing <;> rfl
  kept _ := rfl
  received c φ _ _ := by simp [Delivery.received, values, sentTo, closes, chooseAll]
  backlog c _ _ := by simp [values, sentTo, chooseAll]

/-- An event of a channel that was closed before is passed over. -/
theorem skip (h : run.Heard choosing events i)
    (hclosed : i.after.closed.contains e.channel = true) :
    run.Heard choosing (events ++ [e]) i := by
  rw [h.closed] at hclosed
  -- for a channel that was open before the batch, the closing is among the events
  have hold (c : Nat) (hc : run.closed.contains c = false) :
      sentTo c (events ++ [e]) = sentTo c events ∧ closes c (events ++ [e]) = closes c events := by
    apply ChannelEvent.sentTo_concat_of_irrelevant
    by_cases hec : e.channel = c
    · rw [hec, hc, Bool.false_or] at hclosed
      exact .inr hclosed
    · exact .inl hec
  constructor
  case count => exact h.count
  case closed =>
    intro c
    rw [h.closed]
    cases hc : run.closed.contains c with
    | true => rfl
    | false => rw [(hold c hc).2]
  case promised =>
    intro h0
    rw [(hold 0 h0).1]
    exact h.promised h0
  case kept => exact h.kept
  case received =>
    intro c φ hφ hc
    rw [(hold c hc).1, (hold c hc).2]
    exact h.received c φ hφ hc
  case backlog =>
    intro c hφ hc
    rw [h.backlog c hφ hc]
    cases hclosed : run.closed.contains c with
    | true => rfl
    | false => rw [(hold c hclosed).1]

/-- The closing of a channel that is open reaches its receiver. -/
theorem close (h : run.Heard choosing events i) (hplaces : run.HasPlaces)
    (hopen : i.after.closed.contains e.channel = false) (hsent : e.sent = none) :
    run.Heard choosing (events ++ [e]) (run.receive choosing i e) := by
  rw [receive, if_neg (by rw [hopen]; exact Bool.false_ne_true), hsent]
  rw [h.closed, Bool.or_eq_false_iff] at hopen
  have hsentTo (c : Nat) : sentTo c (events ++ [e]) = sentTo c events := by
    by_cases hec : e.channel = c
    · exact (ChannelEvent.sentTo_concat_close hec hsent).1
    · exact (ChannelEvent.sentTo_concat_of_irrelevant (.inl hec)).1
  have hcloses (c : Nat) : closes c (events ++ [e]) = (closes c events || e.channel == c) := by
    by_cases hec : e.channel = c
    · rw [(ChannelEvent.sentTo_concat_close hec hsent).2]
      simp [hec]
    · rw [(ChannelEvent.sentTo_concat_of_irrelevant (.inl hec)).2]
      simp [hec]
  constructor
  case count => exact h.count
  case closed =>
    intro c
    show (e.channel :: i.after.closed).contains c = _
    rw [List.contains_cons, h.closed, hcloses, Bool.beq_comm]
    ac_rfl
  case promised =>
    rw [hsentTo]
    exact h.promised
  case kept => exact h.kept
  case received =>
    intro c φ hφ hc
    rw [hsentTo, hcloses, Delivery.received_append, h.received c φ hφ hc]
    by_cases hec : e.channel = c
    · subst hec
      rw [hopen.2]
      simp [hφ, Delivery.received]
    · -- the closing goes to another place, or to none
      have hother : Delivery.received φ.place
          (((run.feed? e.channel).map fun f => (⟨f.place, .closed⟩ : Delivery)).toList) =
          ([], false) := by
        cases hψ : run.feed? e.channel with
        | none => rfl
        | some ψ =>
          have hne : ψ.place ≠ φ.place := fun hp => hec (hplaces _ _ _ _ hψ hφ hp)
          simp [Delivery.received, hne]
      rw [hother]
      cases closes c events <;> simp [hec]
  case backlog =>
    intro c hφ hc
    rw [hsentTo]
    exact h.backlog c hφ hc

/-- An item as it is read, and the channels handed out after it. -/
theorem read (h : run.Heard choosing events i) {item : Json} (hsent : e.sent = some item)
    (hopen : run.closed.contains e.channel = false) (hpast : closes e.channel events = false) :
    run.values choosing e.channel (sentTo e.channel (events ++ [e])) =
        run.values choosing e.channel (sentTo e.channel events) ++
          [(run.read choosing i.promised e.channel item).1] ∧
      (run.closed.contains 0 = false → (run.read choosing i.promised e.channel item).2 =
        run.promisedBy choosing (sentTo 0 (events ++ [e]))) ∧
      (run.closed.contains 0 = true →
        (run.read choosing i.promised e.channel item).2 = run.taken) := by
  have hmore : sentTo e.channel (events ++ [e]) = sentTo e.channel events ++ [item] :=
    (ChannelEvent.sentTo_concat_send rfl hsent hpast).1
  by_cases h0 : e.channel = 0
  · rw [h0] at hopen hmore ⊢
    refine ⟨?_, fun _ => ?_, fun hzero => ?_⟩
    · rw [hmore, values_concat, h.promised hopen]
    · rw [hmore, promisedBy_concat, h.promised hopen]
    · rw [hopen] at hzero
      cases hzero
  · -- the items of the other channels hand out nothing
    have hread (promised : List Nat) :
        run.read choosing promised e.channel item = (.defined item, promised) := by
      simp [ChannelRun.read, h0]
    have hsame : sentTo 0 (events ++ [e]) = sentTo 0 events :=
      (ChannelEvent.sentTo_concat_of_irrelevant (.inl h0)).1
    rw [hmore, values_concat, hread, hread, hsame]
    exact ⟨rfl, h.promised, h.kept⟩

/-- An item of a channel that is open reaches its receiver, or is kept for it. -/
theorem send (h : run.Heard choosing events i) (hplaces : run.HasPlaces)
    (hopen : i.after.closed.contains e.channel = false) {item : Json} (hsent : e.sent = some item) :
    run.Heard choosing (events ++ [e]) (run.receive choosing i e) := by
  have hopen' : run.closed.contains e.channel = false ∧ closes e.channel events = false := by
    rwa [h.closed, Bool.or_eq_false_iff] at hopen
  obtain ⟨hvalue, hpromised, hkept⟩ := h.read hsent hopen'.1 hopen'.2
  have hcloses (c : Nat) : closes c (events ++ [e]) = closes c events := by
    by_cases hec : e.channel = c
    · subst hec
      rw [(ChannelEvent.sentTo_concat_send rfl hsent hopen'.2).2, hopen'.2]
    · exact (ChannelEvent.sentTo_concat_of_irrelevant (.inl hec)).2
  have hsame (c : Nat) (hec : e.channel ≠ c) : sentTo c (events ++ [e]) = sentTo c events :=
    (ChannelEvent.sentTo_concat_of_irrelevant (.inl hec)).1
  have hclosed (c : Nat) :
      i.after.closed.contains c = (run.closed.contains c || closes c (events ++ [e])) := by
    rw [hcloses]
    exact h.closed c
  rw [ChannelRun.receive, if_neg (by rw [hopen]; exact Bool.false_ne_true), hsent]
  dsimp only
  cases hfeed : run.feed? e.channel with
  | some ψ =>
    refine ⟨h.count, hclosed, hpromised, hkept, ?received, ?backlog⟩
    case received =>
      intro c φ hφ hc
      rw [hcloses, Delivery.received_append, h.received c φ hφ hc]
      by_cases hec : e.channel = c
      · subst hec
        obtain rfl : ψ = φ := Option.some.inj (hfeed.symm.trans hφ)
        rw [hopen'.2, hvalue]
        simp [Delivery.received]
      · have hne : ψ.place ≠ φ.place := fun hp => hec (hplaces _ _ _ _ hfeed hφ hp)
        rw [hsame c hec]
        cases closes c events <;> simp [Delivery.received, hne]
    case backlog =>
      intro c hφ hc
      have hec : e.channel ≠ c := by
        rintro rfl
        rw [hfeed] at hφ
        cases hφ
      rw [hsame c hec]
      exact h.backlog c hφ hc
  | none =>
    have hreceived : ∀ c φ, run.feed? c = some φ → run.closed.contains c = false →
        Delivery.received φ.place i.deliveries =
          (run.values choosing c (sentTo c (events ++ [e])), closes c (events ++ [e])) := by
      intro c φ hφ hc
      have hec : e.channel ≠ c := by
        rintro rfl
        rw [hfeed] at hφ
        cases hφ
      rw [hsame c hec, hcloses]
      exact h.received c φ hφ hc
    dsimp only
    split
    · -- the receiver was handed out, and is dropped by now
      rename_i htaken
      refine ⟨h.count, hclosed, hpromised, hkept, hreceived, ?_⟩
      intro c hφ hc
      have hec : e.channel ≠ c := by
        rintro rfl
        exact hc (List.contains_iff_mem.1 htaken)
      rw [hsame c hec]
      exact h.backlog c hφ hc
    · refine ⟨h.count, hclosed, hpromised, hkept, hreceived, ?_⟩
      intro c hφ hc
      show i.after.backlog c ++ (if c = e.channel then _ else []) = _
      rw [h.backlog c hφ hc]
      by_cases hec : e.channel = c
      · subst hec
        rw [hopen'.1, if_neg Bool.false_ne_true, if_neg Bool.false_ne_true, hvalue, if_pos rfl,
          List.append_assoc]
      · rw [hsame c hec, if_neg (Ne.symm hec), List.append_nil]

theorem receive (h : run.Heard choosing events i) (hplaces : run.HasPlaces) (e : ChannelEvent) :
    run.Heard choosing (events ++ [e]) (run.receive choosing i e) := by
  cases hclosed : i.after.closed.contains e.channel with
  | true =>
    rw [ChannelRun.receive, if_pos hclosed]
    exact h.skip hclosed
  | false =>
    cases hsent : e.sent with
    | none => exact h.close hplaces hclosed hsent
    | some item => exact h.send hplaces hclosed hsent

/-- A batch reaches the receiver of a channel. -/
theorem resume_receiver (h : run.Heard choosing events i) {past : List ChannelEvent} {place c : Nat}
    (hclosed : run.closed.contains c = closes c past)
    (hfeed : closes c past = false → run.feed? c = some ⟨[place], Channel.source c⟩)
    (now : Snapshot) :
    (Channel.receiver past place c).resume now i.deliveries =
      ⟨(run.values choosing c (if closes c past then [] else sentTo c events)).map .item,
        Channel.receiver (past ++ events) place c⟩ := by
  rw [Channel.receiver, Channel.receiver, ChannelEvent.closes_append]
  cases hpast : closes c past with
  | true => simp [Rest.resume, values, chooseAll]
  | false =>
    have hreceived := h.received c _ (hfeed hpast) (hclosed.trans hpast)
    simp only [Bool.false_eq_true, if_false, Rest.resume, hreceived, Bool.false_or]
    rfl

end Heard

theorem heard_collect (hplaces : run.HasPlaces) (choosing : Bool) (batch : List ChannelEvent) :
    run.Heard choosing batch (run.collect choosing batch) := by
  induction batch using List.reverseRecOn with
  | nil => exact .start run choosing
  | append_singleton events e ih =>
    rw [collect, List.foldl_append]
    exact ih.receive hplaces e

end ChannelRun
end PolicyDecision
