import PolicyDecision.Index.Matching
import Mathlib.Data.Finset.Card
import Mathlib.Data.Finset.Filter
import Mathlib.Data.Finset.Range

/-!
# PolicyDecision.Proofs.Index.MatchState

What the counters of a matching run stand for.

`ClauseStatus` says what has become of a clause: it is live with some open literals, satisfied, or
eliminated. The counters, the bits and the states of the documents are all functions of the statuses
of the clauses (`Represents`).

* `Represents.satisfy`, `Represents.eliminate`, `Represents.decrement`: the three changes of the
  bookkeeping, each the change of one status.
* `Represents.settle`: the outcome of a predicate advances the status of a clause.
-/

namespace PolicyDecision

/-- What has become of a clause. -/
inductive ClauseStatus where
  | live (openLiterals : Nat)
  | satisfied
  | eliminated
deriving DecidableEq

namespace ClauseStatus

/-- A clause whose last open literal holds is satisfied. -/
def ofOpen (openLiterals : Nat) : ClauseStatus :=
  if openLiterals = 0 then satisfied else live openLiterals

/-- One more literal is known. -/
def advance (holds : Bool) : ClauseStatus → ClauseStatus
  | live n => if holds then ofOpen (n - 1) else eliminated
  | satisfied => satisfied
  | eliminated => eliminated

theorem exists_live {x : ClauseStatus} (hs : x ≠ .satisfied) (he : x ≠ .eliminated) :
    ∃ n, x = .live n := by
  cases x with
  | live n => exact ⟨n, rfl⟩
  | satisfied => exact absurd rfl hs
  | eliminated => exact absurd rfl he

end ClauseStatus

/-- The status of every clause. -/
abbrev Statuses := Nat → ClauseStatus

/-- The statuses after a change of one of them. -/
def Statuses.put (st : Statuses) (index : Nat) (status : ClauseStatus) : Statuses :=
  fun i => if i = index then status else st i

@[simp]
theorem Statuses.put_self (st : Statuses) (j : Nat) (x : ClauseStatus) : st.put j x j = x := by
  simp [put]

@[simp]
theorem Statuses.put_put (st : Statuses) (j : Nat) (x y : ClauseStatus) :
    (st.put j x).put j y = st.put j y := by
  funext i
  by_cases hi : i = j <;> simp [put, hi]

theorem Statuses.put_eq_self (st : Statuses) (j : Nat) : st.put j (st j) = st := by
  funext i
  by_cases hi : i = j <;> simp [put, hi]

theorem Statuses.put_ne (st : Statuses) {i j : Nat} (x : ClauseStatus) (h : i ≠ j) :
    st.put j x i = st i := by
  simp [put, h]

namespace MatchingTables

/-- Whether a document has a clause. -/
def Has (t : MatchingTables) (index document : Nat) : Prop :=
  ∃ c, t.clauses[index]? = some c ∧ document ∈ c.documents

instance (t : MatchingTables) (index document : Nat) : Decidable (t.Has index document) :=
  match h : t.clauses[index]? with
  | none => isFalse fun ⟨_, hc, _⟩ => by simp [h] at hc
  | some c =>
    decidable_of_iff (document ∈ c.documents)
      ⟨fun hd => ⟨c, h, hd⟩, fun ⟨_, hc, hd⟩ => by rw [h, Option.some.injEq] at hc; exact hc ▸ hd⟩

/-- The clauses of a document that are not eliminated. -/
def remaining (t : MatchingTables) (st : Statuses) (document : Nat) : Finset Nat :=
  (Finset.range t.clauses.length).filter fun j => t.Has j document ∧ st j ≠ .eliminated

/-- Documents are listed once in a clause, and they are documents of the tables. -/
structure DocumentsListed (t : MatchingTables) : Prop where
  nodup : ∀ c ∈ t.clauses, c.documents.Nodup
  named : ∀ c ∈ t.clauses, ∀ d ∈ c.documents, d < t.documentNames.length

variable {t : MatchingTables} {st : Statuses} {j d : Nat}

theorem Has.lt (h : t.Has j d) : j < t.clauses.length := by
  obtain ⟨c, hc, _⟩ := h
  exact (List.getElem?_eq_some_iff.1 hc).1

theorem has_iff {c : CompiledClause} (hc : t.clauses[j]? = some c) :
    t.Has j d ↔ d ∈ c.documents := by
  simp [Has, hc]

theorem mem_remaining : j ∈ t.remaining st d ↔ t.Has j d ∧ st j ≠ .eliminated := by
  simp only [remaining, Finset.mem_filter, Finset.mem_range, and_iff_right_iff_imp]
  exact fun h => h.1.lt

theorem remaining_eq_empty : t.remaining st d = ∅ ↔ ∀ j, t.Has j d → st j = .eliminated := by
  simp only [Finset.eq_empty_iff_forall_notMem, mem_remaining, not_and, not_not]

theorem remaining_put_eliminated :
    t.remaining (st.put j .eliminated) d = (t.remaining st d).erase j := by
  ext i
  rw [mem_remaining, Finset.mem_erase, mem_remaining]
  by_cases hi : i = j
  · simp [hi]
  · simp [hi, Statuses.put_ne]

theorem remaining_put_of_not_has (x : ClauseStatus) (h : ¬ t.Has j d) :
    t.remaining (st.put j x) d = t.remaining st d := by
  ext i
  rw [mem_remaining, mem_remaining]
  by_cases hi : i = j
  · simp [hi, h]
  · rw [Statuses.put_ne _ _ hi]

theorem remaining_put_of_ne_eliminated {x : ClauseStatus} (hx : x ≠ .eliminated)
    (hj : st j ≠ .eliminated) : t.remaining (st.put j x) d = t.remaining st d := by
  ext i
  rw [mem_remaining, mem_remaining]
  by_cases hi : i = j
  · simp [hi, hx, hj]
  · rw [Statuses.put_ne _ _ hi]

theorem exists_satisfied_put (x : ClauseStatus) (hj : st j ≠ .satisfied) :
    (∃ i, t.Has i d ∧ st.put j x i = .satisfied) ↔
      (t.Has j d ∧ x = .satisfied) ∨ ∃ i, t.Has i d ∧ st i = .satisfied := by
  constructor
  · rintro ⟨i, hi, hsat⟩
    by_cases hij : i = j
    · subst hij
      rw [Statuses.put_self] at hsat
      exact .inl ⟨hi, hsat⟩
    · rw [Statuses.put_ne _ _ hij] at hsat
      exact .inr ⟨i, hi, hsat⟩
  · rintro (⟨hd, rfl⟩ | ⟨i, hi, hsat⟩)
    · exact ⟨j, hd, Statuses.put_self _ _ _⟩
    · have hij : i ≠ j := by
        rintro rfl
        exact hj hsat
      exact ⟨i, hi, (Statuses.put_ne _ _ hij).trans hsat⟩

theorem all_eliminated_put {x : ClauseStatus} (hx : x ≠ .eliminated) (hj : st j ≠ .eliminated) :
    (∀ i, t.Has i d → st.put j x i = .eliminated) ↔ ∀ i, t.Has i d → st i = .eliminated := by
  rw [← remaining_eq_empty, ← remaining_eq_empty, remaining_put_of_ne_eliminated hx hj]

end MatchingTables

/-! ## Determining documents -/

namespace MatchState

variable {s : MatchState} {o : DocumentState} {d e : Nat}

@[simp]
theorem determine_live : (s.determine d o).live = s.live := by
  unfold determine; split <;> rfl

@[simp]
theorem determine_unsatisfied : (s.determine d o).unsatisfied = s.unsatisfied := by
  unfold determine; split <;> rfl

@[simp]
theorem determine_liveClauses : (s.determine d o).liveClauses = s.liveClauses := by
  unfold determine; split <;> rfl

theorem determine_documents :
    (s.determine d o).documents[e]? =
      if e = d ∧ s.documents[e]? = some .undetermined then some o else s.documents[e]? := by
  unfold determine
  split
  · rename_i h
    rw [List.getElem?_set]
    obtain ⟨hlt, _⟩ := List.getElem?_eq_some_iff.1 h
    by_cases he : d = e
    · subst he
      rw [h]
      simp [hlt]
    · have he' : ¬ e = d := fun h => he h.symm
      simp [he, he']
  · rename_i h
    by_cases he : e = d
    · subst he
      simp [h]
    · simp [he]

@[simp]
theorem determine_documents_length : (s.determine d o).documents.length = s.documents.length := by
  unfold determine; split <;> simp

/-- The number of undetermined documents is kept right. -/
def IsCounted (s : MatchState) : Prop := s.undetermined = s.documents.count .undetermined

theorem IsCounted.determine (h : s.IsCounted) (ho : o ≠ .undetermined) :
    (s.determine d o).IsCounted := by
  unfold MatchState.determine IsCounted
  split
  · rename_i hd
    obtain ⟨hlt, hget⟩ := List.getElem?_eq_some_iff.1 hd
    rw [List.count_set hlt, hget, h]
    simp [ho]
  · exact h

/-! ## Satisfying a clause -/

/-- Determine all documents of a list as matched. -/
theorem matchAll_spec (documents : List Nat) (h : s.IsCounted) :
    let s' := documents.foldl (fun s d => s.determine d .matched) s
    s'.live = s.live ∧ s'.unsatisfied = s.unsatisfied ∧ s'.liveClauses = s.liveClauses ∧
      s'.documents.length = s.documents.length ∧ s'.IsCounted ∧
      ∀ e, s'.documents[e]? =
        if e ∈ documents ∧ s.documents[e]? = some .undetermined then some .matched
        else s.documents[e]? := by
  induction documents generalizing s with
  | nil => simp [h]
  | cons d rest ih =>
    obtain ⟨hl, hu, hc, hlen, hcount, hdocs⟩ := ih (h.determine (d := d) (o := .matched) (by decide))
    simp only [List.foldl_cons]
    refine ⟨by simpa using hl, by simpa using hu, by simpa using hc, by simpa using hlen, hcount,
      fun e => ?_⟩
    rw [hdocs, determine_documents]
    by_cases he : e = d
    · subst he
      by_cases hund : s.documents[e]? = some .undetermined <;> simp [hund]
    · simp [he]

/-! ## Eliminating a clause -/

@[simp]
theorem release_live : (s.release d).live = s.live := by
  unfold release
  dsimp only
  split <;> simp

@[simp]
theorem release_unsatisfied : (s.release d).unsatisfied = s.unsatisfied := by
  unfold release
  dsimp only
  split <;> simp

theorem release_liveClauses :
    (s.release d).liveClauses[e]? =
      (s.liveClauses[e]?).map fun n => if e = d then n - 1 else n := by
  have hmod : (s.liveClauses.modify d (· - 1))[e]? =
      (s.liveClauses[e]?).map fun n => if e = d then n - 1 else n := by
    rw [List.getElem?_modify]
    by_cases he : d = e
    · simp [he]
    · have he' : ¬ e = d := fun h => he h.symm
      simp [he, he']
  unfold release
  dsimp only
  split
  · rw [determine_liveClauses, hmod]
  · exact hmod

theorem release_documents :
    (s.release d).documents[e]? =
      if e = d ∧ (s.liveClauses[e]?).map (· - 1) = some 0 ∧ s.documents[e]? = some .undetermined
      then some .eliminated else s.documents[e]? := by
  have hmod : (s.liveClauses.modify d (· - 1))[d]? = (s.liveClauses[d]?).map (· - 1) := by
    simp
  unfold release
  dsimp only
  rw [hmod]
  split
  · rename_i hz
    rw [determine_documents]
    by_cases he : e = d
    · subst he
      simp [hz]
    · simp [he]
  · rename_i hz
    by_cases he : e = d
    · subst he
      simp [hz]
    · simp [he]

@[simp]
theorem release_documents_length : (s.release d).documents.length = s.documents.length := by
  unfold release
  dsimp only
  split <;> simp

theorem IsCounted.release (h : s.IsCounted) : (s.release d).IsCounted := by
  unfold MatchState.release
  dsimp only
  split
  · exact IsCounted.determine h (by decide)
  · exact h

theorem releaseAll_spec (documents : List Nat) (h : s.IsCounted) (hnodup : documents.Nodup) :
    let s' := documents.foldl release s
    s'.live = s.live ∧ s'.unsatisfied = s.unsatisfied ∧
      s'.documents.length = s.documents.length ∧ s'.IsCounted ∧
      (∀ e, s'.liveClauses[e]? =
        (s.liveClauses[e]?).map fun n => if e ∈ documents then n - 1 else n) ∧
      ∀ e, s'.documents[e]? =
        if e ∈ documents ∧ (s.liveClauses[e]?).map (· - 1) = some 0 ∧
          s.documents[e]? = some .undetermined
        then some .eliminated else s.documents[e]? := by
  induction documents generalizing s with
  | nil => simp [h]
  | cons d rest ih =>
    obtain ⟨hd, hrest⟩ := List.nodup_cons.1 hnodup
    obtain ⟨hl, hu, hlen, hcount, hc, hdocs⟩ := ih (h.release (d := d)) hrest
    simp only [List.foldl_cons]
    refine ⟨by simpa using hl, by simpa using hu, by simpa using hlen, hcount, fun e => ?_,
      fun e => ?_⟩
    · rw [hc, release_liveClauses, Option.map_map]
      congr 1
      funext n
      by_cases he : e = d
      · subst he
        simp [hd]
      · simp [he]
    · rw [hdocs, release_documents, release_liveClauses]
      by_cases he : e = d
      · subst he
        simp [hd]
      · simp [he]

end MatchState

/-! ## Statuses -/

/-- The bookkeeping agrees with the statuses of the clauses. -/
structure Represents (t : MatchingTables) (st : Statuses) (s : MatchState) : Prop where
  live : ∀ j, s.live.test j = true ↔ j < t.clauses.length ∧ ∃ n, st j = .live n
  unsatisfied : ∀ j n, j < t.clauses.length → st j = .live n → s.unsatisfied[j]? = some n
  liveClauses : ∀ d < t.documentNames.length, s.liveClauses[d]? = some (t.remaining st d).card
  documents_length : s.documents.length = t.documentNames.length
  counted : s.IsCounted
  matched : ∀ d < t.documentNames.length,
    s.documents[d]? = some .matched ↔ ∃ j, t.Has j d ∧ st j = .satisfied
  eliminated : ∀ d < t.documentNames.length,
    s.documents[d]? = some .eliminated ↔ ∀ j, t.Has j d → st j = .eliminated

namespace Represents

open MatchingTables

variable {t : MatchingTables} {st : Statuses} {s : MatchState} {j n d : Nat} {c : CompiledClause}

theorem documents_cases (h : Represents t st s) (hd : d < t.documentNames.length) :
    s.documents[d]? = some .undetermined ∨ s.documents[d]? = some .matched ∨
      s.documents[d]? = some .eliminated := by
  have hlt : d < s.documents.length := h.documents_length ▸ hd
  rw [List.getElem?_eq_getElem hlt]
  cases s.documents[d] <;> simp

theorem undetermined_iff (h : Represents t st s) (hd : d < t.documentNames.length) :
    s.documents[d]? = some .undetermined ↔
      (∀ j, t.Has j d → st j ≠ .satisfied) ∧ ∃ j, t.Has j d ∧ st j ≠ .eliminated := by
  have hm := h.matched d hd
  have he := h.eliminated d hd
  rcases h.documents_cases hd with hs | hs | hs <;> rw [hs] at hm he ⊢
  · simp only [Option.some.injEq, reduceCtorEq, false_iff, not_exists, not_and, not_forall] at hm he
    simp only [true_iff]
    obtain ⟨i, hi, hne⟩ := he
    exact ⟨hm, i, hi, hne⟩
  · obtain ⟨i, hi, hsat⟩ := hm.1 rfl
    simp only [Option.some.injEq, reduceCtorEq, false_iff, not_and]
    exact fun hall => absurd hsat (hall i hi)
  · simp only [Option.some.injEq, reduceCtorEq, false_iff, not_and, not_exists, not_not]
    exact fun _ i hi => he.1 rfl i hi

/-- A document with a clause that is not eliminated is not eliminated either. -/
theorem not_eliminated (h : Represents t st s) (hd : d < t.documentNames.length)
    (hj : t.Has j d) (hne : st j ≠ .eliminated) : s.documents[d]? ≠ some .eliminated :=
  fun he => hne ((h.eliminated d hd).1 he j hj)

theorem live_put {x : ClauseStatus} (h : Represents t st s) (hx : ∀ m, x ≠ .live m) (i : Nat) :
    (s.live.clear j).test i = true ↔ i < t.clauses.length ∧ ∃ n, st.put j x i = .live n := by
  rw [Bitmask.test_clear]
  by_cases hi : i = j
  · subst hi
    simp [hx]
  · have hne : ¬ j = i := fun e => hi e.symm
    simp [hne, h.live i, Statuses.put_ne _ _ hi]

theorem unsatisfied_put {x : ClauseStatus} (h : Represents t st s) (hx : ∀ m, x ≠ .live m)
    (i m : Nat) (hi : i < t.clauses.length) (hm : st.put j x i = .live m) :
    s.unsatisfied[i]? = some m := by
  by_cases hij : i = j
  · subst hij
    rw [Statuses.put_self] at hm
    exact absurd hm (hx m)
  · rw [Statuses.put_ne _ _ hij] at hm
    exact h.unsatisfied i m hi hm

theorem satisfy (h : Represents t st s) (hc : t.clauses[j]? = some c)
    (hlive : st j = .live n) : Represents t (st.put j .satisfied) (s.satisfy j c) := by
  have hhas (d : Nat) : t.Has j d ↔ d ∈ c.documents := has_iff hc
  have hcounted : MatchState.IsCounted { s with live := s.live.clear j } := h.counted
  obtain ⟨hl, hu, hlc, hlen, hcount, hdocs⟩ :=
    MatchState.matchAll_spec c.documents hcounted
  constructor
  case live =>
    unfold MatchState.satisfy
    rw [hl]
    exact h.live_put (by simp)
  case unsatisfied =>
    unfold MatchState.satisfy
    rw [hu]
    exact h.unsatisfied_put (by simp)
  case liveClauses =>
    intro d hd
    unfold MatchState.satisfy
    rw [hlc, remaining_put_of_ne_eliminated (by simp) (by simp [hlive])]
    exact h.liveClauses d hd
  case documents_length =>
    unfold MatchState.satisfy
    rw [hlen]
    exact h.documents_length
  case counted => exact hcount
  case matched =>
    intro d hd
    unfold MatchState.satisfy
    rw [hdocs, exists_satisfied_put _ (by simp [hlive]), ← h.matched d hd, hhas]
    by_cases hmem : d ∈ c.documents
    · have hne := h.not_eliminated hd ((hhas d).2 hmem) (by simp [hlive])
      rcases h.documents_cases hd with hs | hs | hs
      · simp [hmem, hs]
      · simp [hs]
      · exact absurd hs hne
    · simp [hmem]
  case eliminated =>
    intro d hd
    unfold MatchState.satisfy
    rw [hdocs, all_eliminated_put (by simp) (by simp [hlive]), ← h.eliminated d hd]
    split
    · rename_i hcond
      simp [hcond.2]
    · exact Iff.rfl

/-- A satisfied clause of a document remains beside a live one. -/
theorem one_lt_card_remaining (h : Represents t st s) (hd : d < t.documentNames.length)
    (hs : s.documents[d]? = some .matched) (hj : t.Has j d) (hlive : st j = .live n) :
    1 < (t.remaining st d).card := by
  obtain ⟨i, hi, hsat⟩ := (h.matched d hd).1 hs
  have hij : i ≠ j := by
    rintro rfl
    rw [hlive] at hsat
    cases hsat
  rw [Finset.one_lt_card]
  exact ⟨i, mem_remaining.2 ⟨hi, by simp [hsat]⟩, j, mem_remaining.2 ⟨hj, by simp [hlive]⟩, hij⟩

theorem eliminate (h : Represents t st s) (ht : t.DocumentsListed) (hc : t.clauses[j]? = some c)
    (hlive : st j = .live n) : Represents t (st.put j .eliminated) (s.eliminate j c) := by
  have hhas (d : Nat) : t.Has j d ↔ d ∈ c.documents := has_iff hc
  have hmem : c ∈ t.clauses := List.mem_of_getElem? hc
  have hcounted : MatchState.IsCounted { s with live := s.live.clear j } := h.counted
  obtain ⟨hl, hu, hlen, hcount, hlc, hdocs⟩ :=
    MatchState.releaseAll_spec c.documents hcounted (ht.nodup c hmem)
  have hcard (d : Nat) (hd : d ∈ c.documents) :
      (t.remaining (st.put j .eliminated) d).card = (t.remaining st d).card - 1 := by
    rw [remaining_put_eliminated, Finset.card_erase_of_mem]
    exact mem_remaining.2 ⟨(hhas d).2 hd, by simp [hlive]⟩
  constructor
  case live =>
    unfold MatchState.eliminate
    rw [hl]
    exact h.live_put (by simp)
  case unsatisfied =>
    unfold MatchState.eliminate
    rw [hu]
    exact h.unsatisfied_put (by simp)
  case liveClauses =>
    intro d hd
    unfold MatchState.eliminate
    rw [hlc, h.liveClauses d hd]
    by_cases hmemd : d ∈ c.documents
    · simp [hmemd, hcard d hmemd]
    · rw [remaining_put_of_not_has _ fun hj => hmemd ((hhas d).1 hj)]
      simp [hmemd]
  case documents_length =>
    unfold MatchState.eliminate
    rw [hlen]
    exact h.documents_length
  case counted => exact hcount
  case matched =>
    intro d hd
    unfold MatchState.eliminate
    rw [hdocs, exists_satisfied_put _ (by simp [hlive]), ← h.matched d hd]
    split
    · rename_i hcond
      simp [hcond.2.2]
    · simp
  case eliminated =>
    intro d hd
    unfold MatchState.eliminate
    rw [hdocs, ← remaining_eq_empty, ← Finset.card_eq_zero]
    by_cases hmemd : d ∈ c.documents
    · rw [hcard d hmemd]
      have hne := h.not_eliminated hd ((hhas d).2 hmemd) (by simp [hlive])
      simp only [hmemd, true_and, h.liveClauses d hd, Option.map_some, Option.some.injEq]
      rcases h.documents_cases hd with hs | hs | hs
      · simp [hs]
      · have hcardlt := h.one_lt_card_remaining hd hs ((hhas d).2 hmemd) hlive
        simp only [hs, Option.some.injEq, reduceCtorEq, and_false, if_false, false_iff]
        omega
      · exact absurd hs hne
    · rw [remaining_put_of_not_has _ fun hj => hmemd ((hhas d).1 hj), Finset.card_eq_zero,
        remaining_eq_empty]
      simp only [hmemd, false_and, if_false]
      exact h.eliminated d hd

/-- A literal of a live clause holds, and others are open. -/
theorem decrement (h : Represents t st s) (hlive : st j = .live n) :
    Represents t (st.put j (.live (n - 1)))
      { s with unsatisfied := s.unsatisfied.modify j (· - 1) } := by
  constructor
  case live =>
    intro i
    rw [h.live i]
    by_cases hi : i = j
    · subst hi
      simp [hlive]
    · rw [Statuses.put_ne _ _ hi]
  case unsatisfied =>
    intro i m hi hm
    dsimp only
    rw [List.getElem?_modify]
    by_cases hij : i = j
    · subst hij
      rw [Statuses.put_self] at hm
      cases hm
      simp [h.unsatisfied i n hi hlive]
    · have hne : ¬ j = i := fun e => hij e.symm
      rw [Statuses.put_ne _ _ hij] at hm
      simp [hne, h.unsatisfied i m hi hm]
  case liveClauses =>
    intro d hd
    rw [remaining_put_of_ne_eliminated (by simp) (by simp [hlive])]
    exact h.liveClauses d hd
  case documents_length => exact h.documents_length
  case counted => exact h.counted
  case matched =>
    intro d hd
    rw [exists_satisfied_put _ (by simp [hlive])]
    simpa using h.matched d hd
  case eliminated =>
    intro d hd
    rw [all_eliminated_put (by simp) (by simp [hlive])]
    exact h.eliminated d hd

theorem live_eq_false (h : Represents t st s) (hst : ∀ n, st j ≠ .live n) :
    s.live.test j = false := by
  refine Bool.eq_false_iff.2 fun hl => ?_
  obtain ⟨_, n, hn⟩ := (h.live j).1 hl
  exact hst n hn

/-- The outcome of a predicate advances the status of a clause that references it. -/
theorem settle (h : Represents t st s) (ht : t.DocumentsListed) (hc : t.clauses[j]? = some c)
    (position : Nat) (outcome : Option Bool) :
    Represents t (st.put j ((st j).advance (outcome = some (c.polarity.test position))))
      (s.settle t position outcome j) := by
  have hlt : j < t.clauses.length := (List.getElem?_eq_some_iff.1 hc).1
  unfold MatchState.settle
  rw [hc]
  dsimp only
  cases hst : st j with
  | live n =>
    have hlive : s.live.test j = true := (h.live j).2 ⟨hlt, n, hst⟩
    by_cases ho : outcome = some (c.polarity.test position)
    · have hdec := h.decrement hst
      have hopen := hdec.unsatisfied j (n - 1) hlt (by simp)
      simp only [hlive, Bool.not_true, Bool.false_eq_true, if_false, ho, if_true, hopen,
        ClauseStatus.advance, decide_true, ClauseStatus.ofOpen, Option.some.injEq]
      by_cases hn : n - 1 = 0
      · simp only [hn, if_true]
        have hsat := hdec.satisfy hc (Statuses.put_self _ _ _)
        rwa [Statuses.put_put] at hsat
      · simpa only [hn, if_false] using hdec
    · simp only [hlive, Bool.not_true, Bool.false_eq_true, if_false, ho, ClauseStatus.advance,
        decide_false]
      exact h.eliminate ht hc hst
  | satisfied =>
    have hdead : s.live.test j = false := h.live_eq_false (by simp [hst])
    simp only [hdead, Bool.not_false, if_true, ClauseStatus.advance]
    rw [← hst, st.put_eq_self]
    exact h
  | eliminated =>
    have hdead : s.live.test j = false := h.live_eq_false (by simp [hst])
    simp only [hdead, Bool.not_false, if_true, ClauseStatus.advance]
    rw [← hst, st.put_eq_self]
    exact h

end Represents
end PolicyDecision
