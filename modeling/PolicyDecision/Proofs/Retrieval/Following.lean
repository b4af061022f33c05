import PolicyDecision.Proofs.Index.Protocol

/-!
# PolicyDecision.Proofs.Retrieval.Following

A follower of a retrieval point, polled while batches of updates are offered to the point.

A poll owes an item when none was given so far, or when a batch was accepted since the last one. The
revision that the follower has seen and its flag for the first poll say exactly this, whatever the
order of offers and polls was.

* `Following.run`: offers and polls in any order, and their answers.
* `Following.Owes`: what the answers so far say about the next poll.
* `Following.Follows`: the invariant. `Follows.turn` shows that every turn keeps it, `Follows.run`
  that all turns do.
* `Following.run_loses_nothing`: the polls give an item exactly when one is owed, from the index that
  is current then; the versions of the items ascend.
-/

namespace PolicyDecision

/-- A point and a follower of it. -/
structure Following where
  point : RetrievalPoint
  follower : Follower

namespace Following

/-- What can happen to a point that is followed. -/
inductive Turn where
  | offer (batch : UpdateBatch)
  | poll

/-- What a turn is answered with. A poll comes with the index that was current then. -/
inductive Answer where
  | accepted
  | refused (e : Error)
  | polled (index : DocumentIndex) (result : Poll)

def ofSubscription (p : RetrievalPoint) (s : Subscription) : Following := ⟨p, .ofSubscription p s⟩

def turn (w : Following) : Turn → Following × Answer
  | .offer batch =>
    match w.point.apply batch with
    | .ok point => ({ w with point }, .accepted)
    | .error e => (w, .refused e)
  | .poll =>
    let (result, follower) := w.follower.poll w.point
    ({ w with follower }, .polled w.point.index result)

def run (w : Following) : List Turn → Following × List Answer
  | [] => (w, [])
  | t :: rest =>
    let (w, first) := w.turn t
    let (w, more) := w.run rest
    (w, first :: more)

/-! ## What the answers say -/

def Answer.isItem : Answer → Bool
  | .polled _ (.item _) => true
  | _ => false

/-- The version of the index that an item was retrieved from. -/
def Answer.version? : Answer → Option Nat
  | .polled index (.item _) => some index.version
  | _ => none

def Answer.isAccepted : Answer → Bool
  | .accepted => true
  | _ => false

/-- The versions behind the items. -/
def versions (answers : List Answer) : List Nat := answers.filterMap Answer.version?

/-- No item was given so far, or a batch was accepted since the last one. -/
def Owes (answers : List Answer) : Prop :=
  (∀ a ∈ answers, a.isItem = false) ∨
    ∃ before after, answers = before ++ .accepted :: after ∧ ∀ a ∈ after, a.isItem = false

/-- The batches that are offered. -/
def offered (turns : List Turn) : List UpdateBatch :=
  turns.filterMap fun
    | .offer batch => some batch
    | .poll => none

section Owes

variable {answers : List Answer} {a : Answer}

theorem owes_nil : Owes [] := .inl (by simp)

theorem owes_accepted (answers : List Answer) : Owes (answers ++ [.accepted]) :=
  .inr ⟨answers, [], rfl, by simp⟩

theorem not_owes_item (answers : List Answer) (h : a.isItem = true) : ¬ Owes (answers ++ [a]) := by
  rintro (hnone | ⟨before, after, heq, hafter⟩)
  · have := hnone a (by simp)
    rw [h] at this
    cases this
  · -- the last answer is an item, so it is not the acceptance, nor behind it
    cases after using List.reverseRecOn with
    | nil =>
      have hlast := congrArg List.getLast? heq
      simp only [List.getLast?_concat, Option.some.injEq] at hlast
      rw [hlast] at h
      cases h
    | append_singleton rest b =>
      have hlast := congrArg List.getLast? heq
      rw [← List.cons_append, ← List.append_assoc, List.getLast?_concat,
        List.getLast?_concat, Option.some.injEq] at hlast
      have := hafter b (by simp)
      rw [← hlast, h] at this
      cases this

/-- An answer that is neither an item nor an acceptance leaves open what was open. -/
theorem owes_concat_iff (hitem : a.isItem = false) (haccepted : a.isAccepted = false) :
    Owes (answers ++ [a]) ↔ Owes answers := by
  constructor
  · rintro (hnone | ⟨before, after, heq, hafter⟩)
    · exact .inl fun b hb => hnone b (by simp [hb])
    · cases after using List.reverseRecOn with
      | nil =>
        have hlast := congrArg List.getLast? heq
        simp only [List.getLast?_concat, Option.some.injEq] at hlast
        rw [hlast] at haccepted
        cases haccepted
      | append_singleton rest b =>
        rw [← List.cons_append, ← List.append_assoc] at heq
        obtain ⟨heq, -⟩ := List.append_inj' heq rfl
        exact .inr ⟨before, rest, heq, fun c hc => hafter c (by simp [hc])⟩
  · rintro (hnone | ⟨before, after, rfl, hafter⟩)
    · left
      intro b hb
      rcases List.mem_append.1 hb with hb | hb
      · exact hnone b hb
      · rw [List.mem_singleton.1 hb]
        exact hitem
    · refine .inr ⟨before, after ++ [a], by simp, ?_⟩
      intro b hb
      rcases List.mem_append.1 hb with hb | hb
      · exact hafter b hb
      · rw [List.mem_singleton.1 hb]
        exact hitem

end Owes

theorem versions_concat (answers : List Answer) (a : Answer) :
    versions (answers ++ [a]) = versions answers ++ a.version?.toList := by
  rw [versions, List.filterMap_append]
  cases h : a.version? <;> simp [versions, h]

/-! ## One turn, and all turns -/

/-- What the follower knows, beside the answers so far. -/
structure Follows (p : RetrievalPoint) (s : Subscription) (w : Following) (answers : List Answer) :
    Prop where
  evaluate : w.follower.evaluate = targetEvaluator (p.contextFor s)
  context : w.point.context = p.context
  isOpen : w.point.isOpen = p.isOpen
  seen_le : w.follower.seen ≤ w.point.revision
  isDue_iff : w.follower.isDue w.point = true ↔ Owes answers
  version : w.point.index.version = p.index.version + answers.countP Answer.isAccepted
  versions_le : ∀ v ∈ versions answers, v ≤ w.point.index.version
  versions_lt : w.follower.isDue w.point = true → ∀ v ∈ versions answers, v < w.point.index.version
  ascending : (versions answers).Pairwise (· < ·)
  items : ∀ index r, .polled index (.item r) ∈ answers →
    r = index.retrieve (targetEvaluator (p.contextFor s))

section Follows

variable {p : RetrievalPoint} {s : Subscription} {w : Following} {answers : List Answer}

theorem Follows.ofSubscription (p : RetrievalPoint) (s : Subscription) :
    (Following.ofSubscription p s).Follows p s [] where
  evaluate := rfl
  context := rfl
  isOpen := rfl
  seen_le := Nat.le_refl _
  isDue_iff := by
    show (true || _) = true ↔ Owes []
    simp [owes_nil]
  version := rfl
  versions_le := by simp [versions]
  versions_lt := by simp [versions]
  ascending := .nil
  items := by simp

theorem Follows.retrieve_eq (h : w.Follows p s answers) :
    w.point.index.retrieve w.follower.evaluate = w.point.retrieve s := by
  rw [RetrievalPoint.retrieve, h.evaluate, RetrievalPoint.contextFor, RetrievalPoint.contextFor,
    h.context]

/-- An accepted batch makes a new version, which is owed. -/
theorem Follows.accept (h : w.Follows p s answers) {batch : UpdateBatch} {next : RetrievalPoint}
    (hnext : w.point.apply batch = .ok next) :
    Follows p s { w with point := next } (answers ++ [.accepted]) := by
  have hversion : next.index.version = w.point.index.version + 1 :=
    (DocumentIndex.apply_ok (RetrievalPoint.index_of_apply hnext)).1
  have hpoint : next.context = w.point.context ∧ next.isOpen = w.point.isOpen ∧
      next.revision = w.point.revision + 1 := by
    rw [RetrievalPoint.apply] at hnext
    split at hnext
    · cases hnext
      exact ⟨rfl, rfl, rfl⟩
    · cases hnext
  obtain ⟨hcontext, hopen, hrevision⟩ := hpoint
  have hseen := h.seen_le
  have hdue : w.follower.isDue next = true := by
    have hne : w.follower.seen ≠ next.revision := by omega
    simp [Follower.isDue, hne]
  have hversions : versions (answers ++ [.accepted]) = versions answers := by
    rw [versions_concat]
    exact List.append_nil _
  constructor
  case evaluate => exact h.evaluate
  case context => exact hcontext.trans h.context
  case isOpen => exact hopen.trans h.isOpen
  case seen_le =>
    show w.follower.seen ≤ next.revision
    omega
  case isDue_iff => simp [hdue, owes_accepted]
  case version =>
    show next.index.version = _
    rw [List.countP_append, hversion, h.version]
    rfl
  case versions_le =>
    intro v hv
    rw [hversions] at hv
    have := h.versions_le v hv
    show v ≤ next.index.version
    omega
  case versions_lt =>
    intro _ v hv
    rw [hversions] at hv
    have := h.versions_le v hv
    show v < next.index.version
    omega
  case ascending =>
    rw [hversions]
    exact h.ascending
  case items =>
    intro index r hr
    exact h.items index r (by simpa using hr)

/-- An answer that gives no item and accepts nothing, and leaves point and follower as they are. -/
theorem Follows.idle (h : w.Follows p s answers) {a : Answer} (hitem : a.isItem = false)
    (haccepted : a.isAccepted = false) : w.Follows p s (answers ++ [a]) := by
  have hversion : a.version? = none := by
    cases a with
    | polled index result => cases result <;> first | rfl | cases hitem
    | accepted => rfl
    | refused e => rfl
  have hversions : versions (answers ++ [a]) = versions answers := by
    rw [versions_concat, hversion]
    exact List.append_nil _
  constructor
  case evaluate => exact h.evaluate
  case context => exact h.context
  case isOpen => exact h.isOpen
  case seen_le => exact h.seen_le
  case isDue_iff => exact h.isDue_iff.trans (owes_concat_iff hitem haccepted).symm
  case version => simpa [List.countP_append, haccepted] using h.version
  case versions_le =>
    rw [hversions]
    exact h.versions_le
  case versions_lt =>
    rw [hversions]
    exact h.versions_lt
  case ascending =>
    rw [hversions]
    exact h.ascending
  case items =>
    intro index r hr
    rcases List.mem_append.1 hr with hr | hr
    · exact h.items index r hr
    · rw [← List.mem_singleton.1 hr] at hitem
      cases hitem

/-- The item of a poll that owes one. -/
theorem Follows.item (h : w.Follows p s answers) (hdue : w.follower.isDue w.point = true) :
    Follows p s { w with follower := { w.follower with seen := w.point.revision, isNew := false } }
      (answers ++ [.polled w.point.index (.item (w.point.retrieve s))]) := by
  have hversions : versions (answers ++ [.polled w.point.index (.item (w.point.retrieve s))]) =
      versions answers ++ [w.point.index.version] := versions_concat _ _
  have hold := h.versions_lt hdue
  constructor
  case evaluate => exact h.evaluate
  case context => exact h.context
  case isOpen => exact h.isOpen
  case seen_le => exact Nat.le_refl _
  case isDue_iff =>
    have hnot : ¬ Owes (answers ++ [.polled w.point.index (.item (w.point.retrieve s))]) :=
      not_owes_item answers rfl
    simp [Follower.isDue, hnot]
  case version => simpa [List.countP_append, Answer.isAccepted] using h.version
  case versions_le =>
    rw [hversions]
    intro v hv
    rcases List.mem_append.1 hv with hv | hv
    · exact Nat.le_of_lt (hold v hv)
    · exact Nat.le_of_eq (List.mem_singleton.1 hv)
  case versions_lt =>
    intro hdue'
    simp [Follower.isDue] at hdue'
  case ascending =>
    rw [hversions, List.pairwise_append]
    refine ⟨h.ascending, List.pairwise_singleton _ _, ?_⟩
    intro v hv v' hv'
    rw [List.mem_singleton.1 hv']
    exact hold v hv
  case items =>
    intro index r hr
    rcases List.mem_append.1 hr with hr | hr
    · exact h.items index r hr
    · cases List.mem_singleton.1 hr
      rw [← h.retrieve_eq, h.evaluate]

/-- What a poll is answered with. -/
theorem Follows.poll_eq (h : w.Follows p s answers) :
    w.turn .poll =
      if w.follower.isDue w.point then
        ({ w with follower := { w.follower with seen := w.point.revision, isNew := false } },
          .polled w.point.index (.item (w.point.retrieve s)))
      else (w, .polled w.point.index (if p.isOpen then .pending else .ended)) := by
  rw [turn, Follower.poll, h.retrieve_eq, h.isOpen]
  by_cases hdue : w.follower.isDue w.point = true
  · rw [if_pos hdue, if_pos hdue]
  · rw [if_neg hdue, if_neg hdue]
    cases p.isOpen <;> rfl

theorem Follows.turn (h : w.Follows p s answers) (t : Turn) :
    (w.turn t).1.Follows p s (answers ++ [(w.turn t).2]) := by
  cases t with
  | offer batch =>
    rw [Following.turn]
    cases hnext : w.point.apply batch with
    | ok next => exact h.accept hnext
    | error e => exact h.idle rfl rfl
  | poll =>
    rw [h.poll_eq]
    split
    · rename_i hdue
      exact h.item hdue
    · refine h.idle ?_ rfl
      cases p.isOpen <;> rfl

theorem Follows.run (h : w.Follows p s answers) (turns : List Turn) :
    (w.run turns).1.Follows p s (answers ++ (w.run turns).2) := by
  induction turns generalizing w answers with
  | nil =>
    rw [Following.run, List.append_nil]
    exact h
  | cons t rest ih =>
    have hrest := ih (h.turn t)
    rw [List.append_assoc] at hrest
    exact hrest

end Follows

/-- Polls leave the point alone: it is what the offers make of it. -/
theorem point_run (w : Following) (turns : List Turn) :
    (w.run turns).1.point = (w.point.offer (offered turns)).1 := by
  induction turns generalizing w with
  | nil => rfl
  | cons t rest ih =>
    cases t with
    | offer batch =>
      have hoffered : offered (.offer batch :: rest) = batch :: offered rest := rfl
      rw [hoffered, RetrievalPoint.offer, run, turn]
      cases hnext : w.point.apply batch with
      | ok next => exact ih { w with point := next }
      | error e => exact ih w
    | poll => exact ih (w.turn .poll).1

/-- Whatever was offered and polled since a point is followed: the next poll gives an item exactly
when none was given so far or a batch was accepted since the last one. The item is what a retrieval
from the point finds then, which is the point with all batches offered so far. The versions of the
items ascend, and a batch that is refused changes nothing. -/
theorem run_loses_nothing (p : RetrievalPoint) (s : Subscription) (turns : List Turn) :
    ∃ w answers, (ofSubscription p s).run turns = (w, answers) ∧
      w.point = (p.offer (offered turns)).1 ∧
      w.point.index.version = p.index.version + answers.countP Answer.isAccepted ∧
      (Owes answers → (w.turn .poll).2 = .polled w.point.index (.item (w.point.retrieve s))) ∧
      (¬ Owes answers →
        w.turn .poll = (w, .polled w.point.index (if p.isOpen then .pending else .ended))) ∧
      (versions answers).Pairwise (· < ·) ∧
      (∀ index r, .polled index (.item r) ∈ answers →
        r = index.retrieve (targetEvaluator (p.contextFor s))) ∧
      ∀ batch e, w.point.apply batch = .error e → w.turn (.offer batch) = (w, .refused e) := by
  have h := (Follows.ofSubscription p s).run turns
  rw [List.nil_append] at h
  refine ⟨_, _, rfl, point_run _ turns, h.version, ?_, ?_, h.ascending, h.items, ?_⟩
  · intro howes
    rw [h.poll_eq, if_pos (h.isDue_iff.2 howes)]
  · intro howes
    rw [h.poll_eq, if_neg fun hdue => howes (h.isDue_iff.1 hdue)]
  · intro batch e he
    rw [Following.turn, he]

end Following
end PolicyDecision
