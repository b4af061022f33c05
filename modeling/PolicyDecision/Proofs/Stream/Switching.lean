import Mathlib.Data.List.Basic
import PolicyDecision.Proofs.Stream.Batches

/-!
# PolicyDecision.Proofs.Stream.Switching

What a switch over channels has to give, by what the channels carry.

* `Channel.picks`: the channels that the items of channel 0 stand for.
* `Channel.switched`: for every item of channel 0 in turn, what its channel carries up to the batch
  in which the next one is taken.
* `Channel.switched_concat`: what one more batch adds.
-/

namespace PolicyDecision
namespace Channel

open ChannelEvent (sentTo closes)

/-! ## Outer items -/

/-- The channel that an outer item stands for: one that is there and was not handed out before. -/
def pick (count : Nat) (used : List Nat) (item : Json) : Option Nat :=
  (item.number?.bind Number.nat?).filter fun c => c < count && !used.contains c

def picks (count : Nat) : List Nat → List Json → List (Option Nat)
  | _, [] => []
  | used, item :: rest =>
    let c := pick count used item
    c :: picks count (c.toList ++ used) rest

/-- The channels that are handed out after some outer items. -/
def usedBy (count : Nat) : List Nat → List Json → List Nat
  | used, [] => used
  | used, item :: rest => usedBy count ((pick count used item).toList ++ used) rest

variable {count : Nat}

theorem length_picks (used : List Nat) (items : List Json) :
    (picks count used items).length = items.length := by
  induction items generalizing used with
  | nil => rfl
  | cons item rest ih => simp [picks, ih]

theorem picks_append (used : List Nat) (items more : List Json) :
    picks count used (items ++ more) =
      picks count used items ++ picks count (usedBy count used items) more := by
  induction items generalizing used with
  | nil => rfl
  | cons item rest ih => simp [picks, usedBy, ih]

theorem usedBy_append (used : List Nat) (items more : List Json) :
    usedBy count used (items ++ more) = usedBy count (usedBy count used items) more := by
  induction items generalizing used with
  | nil => rfl
  | cons item rest ih => simp [usedBy, ih]

theorem mem_usedBy {used : List Nat} {items : List Json} {c : Nat} :
    c ∈ usedBy count used items ↔ c ∈ used ∨ some c ∈ picks count used items := by
  induction items generalizing used with
  | nil => simp [usedBy, picks]
  | cons item rest ih =>
    rw [usedBy, ih, picks, List.mem_append, Option.mem_toList, List.mem_cons]
    constructor
    · rintro ((h | h) | h)
      · exact .inr (.inl h.symm)
      · exact .inl h
      · exact .inr (.inr h)
    · rintro (h | h | h)
      · exact .inl (.inr h)
      · exact .inl (.inl h.symm)
      · exact .inr h

theorem not_mem_of_pick {used : List Nat} {item : Json} {c : Nat}
    (h : pick count used item = some c) : c ∉ used := by
  rw [pick, Option.filter_eq_some_iff] at h
  simpa using (Bool.and_eq_true_iff.1 h.2).2

/-- A channel is handed out only once. -/
theorem not_mem_of_mem_picks {used : List Nat} {items : List Json} {c : Nat}
    (h : some c ∈ picks count used items) : c ∉ used := by
  induction items generalizing used with
  | nil => cases h
  | cons item rest ih =>
    rcases List.mem_cons.1 h with h | h
    · exact not_mem_of_pick h.symm
    · intro hused
      exact ih h (List.mem_append_right _ hused)

/-! ## Batches -/

/-- The number of the batch in which the outer item `j` is taken; that of all batches if there is
none. -/
def takenIn (batches : List (List ChannelEvent)) (j : Nat) : Nat :=
  (List.range batches.length).findIdx fun b => j < (sentTo 0 (batches.take (b + 1)).flatten).length

/-- What a channel carries up to the batch in which the outer item after `j` is taken. -/
def part (batches : List (List ChannelEvent)) (j c : Nat) : List Json :=
  sentTo c (batches.take (takenIn batches (j + 1) + 1)).flatten

/-- What a switch gives: for every outer item its part, in order. -/
def switched (count : Nat) (batches : List (List ChannelEvent)) : List Json :=
  (picks count [0] (sentTo 0 batches.flatten)).zipIdx.flatMap fun (c, j) =>
    c.elim [] (part batches j)

/-- The channel that is followed after some events. -/
def current (count : Nat) (events : List ChannelEvent) : Option Nat :=
  (picks count [0] (sentTo 0 events)).getLast?.join

section Current

variable {events : List ChannelEvent} {c : Nat}

theorem mem_picks_of_current (h : current count events = some c) :
    some c ∈ picks count [0] (sentTo 0 events) := by
  rw [current, Option.join_eq_some_iff] at h
  exact List.mem_of_getLast? h

theorem ne_zero_of_current (h : current count events = some c) : c ≠ 0 := by
  rintro rfl
  exact not_mem_of_mem_picks (mem_picks_of_current h) (List.mem_singleton_self 0)

theorem length_pos_of_current (h : current count events = some c) :
    0 < (sentTo 0 events).length := by
  have hpos := List.length_pos_of_mem (mem_picks_of_current h)
  rwa [length_picks] at hpos

end Current

/-- What the current channel carries in a batch. -/
def news (events : List ChannelEvent) (c : Nat) (batch : List ChannelEvent) : List Json :=
  if closes c events then [] else sentTo c batch

theorem sentTo_append_news (events batch : List ChannelEvent) (c : Nat) :
    sentTo c (events ++ batch) = sentTo c events ++ news events c batch :=
  ChannelEvent.sentTo_append events batch

/-- The outer items of a batch decide which channel is followed after it. -/
theorem current_append (count : Nat) (events batch : List ChannelEvent) :
    current count (events ++ batch) =
      (picks count (usedBy count [0] (sentTo 0 events)) (news events 0 batch)).getLast?.elim
        (current count events) id := by
  rw [current, sentTo_append_news, picks_append, List.getLast?_append]
  cases (picks count (usedBy count [0] (sentTo 0 events)) (news events 0 batch)).getLast? <;> rfl

section Part

variable {batches : List (List ChannelEvent)} {j : Nat}

/-- The number of the outer items of the first `b` batches. -/
theorem length_sentTo_take_le {b b' : Nat} (h : b ≤ b') :
    (sentTo 0 (batches.take b).flatten).length ≤ (sentTo 0 (batches.take b').flatten).length := by
  obtain ⟨more, hmore⟩ := List.take_prefix_take_left (l := batches) h
  rw [← hmore, List.flatten_append, sentTo_append_news, List.length_append]
  exact Nat.le_add_right _ _

theorem takenIn_eq_iff {b : Nat} (hb : b < batches.length) : takenIn batches j = b ↔
    j < (sentTo 0 (batches.take (b + 1)).flatten).length ∧
      ∀ i < b, (sentTo 0 (batches.take (i + 1)).flatten).length ≤ j := by
  rw [takenIn, List.findIdx_eq (by rwa [List.length_range])]
  simp

theorem takenIn_lt (h : j < (sentTo 0 batches.flatten).length) :
    takenIn batches j < batches.length := by
  have hne : batches ≠ [] := by
    rintro rfl
    cases h
  have hpos : 0 < batches.length := List.length_pos_iff.2 hne
  have hlt : takenIn batches j < (List.range batches.length).length := by
    rw [takenIn]
    refine List.findIdx_lt_length_of_exists ⟨batches.length - 1, List.mem_range.2 (by omega), ?_⟩
    rw [Nat.sub_add_cancel hpos, List.take_length]
    exact decide_eq_true h
  rwa [List.length_range] at hlt

/-- Another batch does not change when an item is taken. -/
theorem takenIn_concat (batch : List ChannelEvent) (h : j < (sentTo 0 batches.flatten).length) :
    takenIn (batches ++ [batch]) j = takenIn batches j := by
  have hlt := takenIn_lt h
  obtain ⟨htaken, hbefore⟩ := (takenIn_eq_iff hlt).1 rfl
  rw [takenIn_eq_iff (by rw [List.length_append]; omega)]
  constructor
  · rwa [List.take_append_of_le_length hlt]
  · intro i hi
    rw [List.take_append_of_le_length (by omega)]
    exact hbefore i hi

/-- An item that is not among the first batches is taken after them. -/
theorem le_takenIn {b : Nat} (hb : b ≤ batches.length)
    (h : (sentTo 0 (batches.take b).flatten).length ≤ j) : b ≤ takenIn batches j := by
  by_contra hlt
  have htaken := ((takenIn_eq_iff (by omega)).1 (rfl : takenIn batches j = _)).1
  have hle : (sentTo 0 (batches.take (takenIn batches j + 1)).flatten).length ≤
      (sentTo 0 (batches.take b).flatten).length := length_sentTo_take_le (Nat.lt_of_not_le hlt)
  omega

/-- What the channel of the last outer item carries. -/
theorem part_of_le (h : (sentTo 0 batches.flatten).length ≤ j + 1) (c : Nat) :
    part batches j c = sentTo c batches.flatten := by
  have hle : batches.length ≤ takenIn batches (j + 1) :=
    le_takenIn (Nat.le_refl _) (by rwa [List.take_length])
  rw [part, List.take_of_length_le (by omega)]

theorem part_concat_of_le (batch : List ChannelEvent)
    (h : (sentTo 0 batches.flatten).length ≤ j + 1) (c : Nat) :
    part (batches ++ [batch]) j c = sentTo c (batches.flatten ++ batch) := by
  have hle : batches.length ≤ takenIn (batches ++ [batch]) (j + 1) :=
    le_takenIn (by simp) (by rwa [List.take_left])
  rw [part, List.take_of_length_le (by simpa using hle), List.flatten_concat]

theorem part_concat_of_lt (batch : List ChannelEvent)
    (h : j + 1 < (sentTo 0 batches.flatten).length) (c : Nat) :
    part (batches ++ [batch]) j c = part batches j c := by
  rw [part, part, takenIn_concat batch h, List.take_append_of_le_length (takenIn_lt h)]

end Part

/-- The parts of the first items do not change, that of the last one goes on. -/
theorem flatMap_part_concat (batches : List (List ChannelEvent)) (batch : List ChannelEvent)
    {channels : List (Option Nat)} (h : channels.length = (sentTo 0 batches.flatten).length) :
    (channels.zipIdx.flatMap fun (c, j) => c.elim [] (part (batches ++ [batch]) j)) =
      (channels.zipIdx.flatMap fun (c, j) => c.elim [] (part batches j)) ++
        channels.getLast?.join.elim [] fun c => news batches.flatten c batch := by
  cases channels using List.reverseRecOn with
  | nil => rfl
  | append_singleton init last =>
    rw [List.length_append, List.length_singleton] at h
    have hinit : (init.zipIdx.flatMap fun (c, j) => c.elim [] (part (batches ++ [batch]) j)) =
        init.zipIdx.flatMap fun (c, j) => c.elim [] (part batches j) := by
      refine List.flatMap_congr fun ⟨c, j⟩ hcj => ?_
      have hj : j < init.length := (List.mem_zipIdx' hcj).1
      cases c with
      | none => rfl
      | some c => exact part_concat_of_lt batch (by omega) c
    rw [List.zipIdx_append, List.flatMap_append, List.flatMap_append, hinit, List.append_assoc]
    congr 1
    cases last with
    | none => simp
    | some c =>
      have hle : (sentTo 0 batches.flatten).length ≤ init.length + 1 := by omega
      simp [part_concat_of_le batch hle, part_of_le hle, sentTo_append_news]

/-- One more batch: what the current channel carries in it, and all that the channels of new outer
items carry. -/
theorem switched_concat (count : Nat) (batches : List (List ChannelEvent))
    (batch : List ChannelEvent) :
    switched count (batches ++ [batch]) = switched count batches ++
      (current count batches.flatten).elim [] (fun c => news batches.flatten c batch) ++
      (picks count (usedBy count [0] (sentTo 0 batches.flatten))
        (news batches.flatten 0 batch)).flatMap fun c =>
          c.elim [] fun c => sentTo c (batches.flatten ++ batch) := by
  rw [switched, List.flatten_concat, sentTo_append_news, picks_append, List.zipIdx_append,
    List.flatMap_append, flatMap_part_concat batches batch (length_picks _ _)]
  congr 1
  -- the new outer items are taken in the last batch
  generalize hchannels : picks count (usedBy count [0] (sentTo 0 batches.flatten))
    (news batches.flatten 0 batch) = channels
  have hpart : (channels.zipIdx (0 + (picks count [0] (sentTo 0 batches.flatten)).length)).flatMap
      (fun (c, j) => c.elim [] (part (batches ++ [batch]) j)) =
        (channels.zipIdx (0 + (picks count [0] (sentTo 0 batches.flatten)).length)).flatMap
          fun (c, _) => c.elim [] fun c => sentTo c (batches.flatten ++ batch) := by
    refine List.flatMap_congr fun ⟨c, j⟩ hcj => ?_
    have hj := List.le_snd_of_mem_zipIdx hcj
    rw [length_picks] at hj
    cases c with
    | none => rfl
    | some c => exact part_concat_of_le batch (by omega) c
  rw [hpart]
  conv_rhs => rw [← List.zipIdx_map_fst (0 + (picks count [0] (sentTo 0 batches.flatten)).length)
    channels, List.flatMap_map]

/-- The first channel is left in the batch in which the second one is chosen. -/
example : switched 3
    [[⟨0, some (.ofInt 1)⟩, ⟨1, some (.ofInt 10)⟩], [⟨0, some (.ofInt 2)⟩, ⟨1, some (.ofInt 11)⟩],
      [⟨1, some (.ofInt 12)⟩, ⟨2, some (.ofInt 20)⟩]] = [.ofInt 10, .ofInt 11, .ofInt 20] := by
  rfl

end Channel
end PolicyDecision
