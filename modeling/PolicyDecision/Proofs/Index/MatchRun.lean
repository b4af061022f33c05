import PolicyDecision.Proofs.Index.MatchState
import PolicyDecision.Proofs.Formula.Verdict

/-!
# PolicyDecision.Proofs.Index.MatchRun

A whole matching run.

The status of a clause is a function of the positions that were evaluated (`CompiledClause.status`):
one of them violates the clause, or what is open is counted. A run keeps the bookkeeping in step with
the positions evaluated so far, and passes over a position only where no undetermined document has
a live clause that references it (`RunsTo`).

* `Represents.start`: before a run the clauses are live but for those without literals.
* `RunsTo.pass`, `RunsTo.ask`: the turn of one position.
* `run_induction`: what every turn keeps holds after a run.
* `RunsTo.determined`: after the run every document is matched or eliminated.
* `MatchingTables.matched_iff`: a document is matched exactly if one of its clauses holds at every position that it
  references, those that were never evaluated included.
-/

namespace PolicyDecision

/-- The outcomes of the predicates of a table. -/
def PredicateTable.outcomes (predicates : PredicateTable) (evaluate : PredicateEvaluator) :
    Outcomes :=
  fun id => (predicates.get? id).bind fun e => (evaluate e).toOption

/-! ## Clauses -/

namespace CompiledClause

/-- The referenced positions that are not evaluated. -/
def openPositions (c : CompiledClause) (seen : Finset Nat) : Finset Nat :=
  (Finset.range c.mask.length).filter fun p => c.mask.test p = true ∧ p ∉ seen

/-- A position that is evaluated has not the required outcome. -/
def Violates (c : CompiledClause) (out : Nat → Option Bool) (seen : Finset Nat) : Prop :=
  ∃ p ∈ seen, c.mask.test p = true ∧ out p ≠ some (c.polarity.test p)

instance (c : CompiledClause) (out : Nat → Option Bool) (seen : Finset Nat) :
    Decidable (c.Violates out seen) :=
  inferInstanceAs (Decidable (∃ p ∈ seen, _))

/-- What has become of the clause once the positions `seen` are evaluated. -/
def status (c : CompiledClause) (out : Nat → Option Bool) (seen : Finset Nat) : ClauseStatus :=
  if c.Violates out seen then .eliminated else .ofOpen (c.openPositions seen).card

/-- Every referenced position has the required outcome. -/
def Holds (c : CompiledClause) (out : Nat → Option Bool) : Prop :=
  ∀ p, c.mask.test p = true → out p = some (c.polarity.test p)

variable {c : CompiledClause} {out : Nat → Option Bool} {seen : Finset Nat} {p : Nat}

theorem lt_of_test (h : c.mask.test p = true) : p < c.mask.length := by
  simp only [Bitmask.test, Bool.and_eq_true, decide_eq_true_eq] at h
  exact h.1

theorem mem_openPositions : p ∈ c.openPositions seen ↔ c.mask.test p = true ∧ p ∉ seen := by
  simp only [openPositions, Finset.mem_filter, Finset.mem_range, and_iff_right_iff_imp]
  exact fun h => lt_of_test h.1

theorem openPositions_insert : c.openPositions (insert p seen) = (c.openPositions seen).erase p := by
  ext q
  simp only [mem_openPositions, Finset.mem_insert, Finset.mem_erase, not_or]
  exact ⟨fun ⟨ht, hne, hq⟩ => ⟨hne, ht, hq⟩, fun ⟨hne, ht, hq⟩ => ⟨ht, hne, hq⟩⟩

theorem status_eq_eliminated : c.status out seen = .eliminated ↔ c.Violates out seen := by
  unfold status ClauseStatus.ofOpen
  split
  · simpa
  · split <;> simpa

theorem status_eq_satisfied :
    c.status out seen = .satisfied ↔ ¬ c.Violates out seen ∧ c.openPositions seen = ∅ := by
  unfold status ClauseStatus.ofOpen
  split
  · simp_all
  · split <;> simp_all

theorem status_eq_live {n : Nat} : c.status out seen = .live n ↔
    ¬ c.Violates out seen ∧ (c.openPositions seen).card = n ∧ n ≠ 0 := by
  unfold status ClauseStatus.ofOpen
  split
  · simp_all
  · split
    · rename_i hz
      simp only [reduceCtorEq, hz, false_iff, not_and, not_not]
      exact fun _ h => h.symm
    · rename_i hv hz
      simp only [ClauseStatus.live.injEq, hv, not_false_eq_true, true_and]
      exact ⟨fun h => ⟨h, h ▸ hz⟩, fun h => h.1⟩

theorem violates_insert (ht : c.mask.test p = true) :
    c.Violates out (insert p seen) ↔
      out p ≠ some (c.polarity.test p) ∨ c.Violates out seen := by
  simp [Violates, ht]

/-- The outcome at a position that the clause references advances its status. -/
theorem status_insert (ht : c.mask.test p = true) (hp : p ∉ seen) :
    c.status out (insert p seen) =
      (c.status out seen).advance (out p = some (c.polarity.test p)) := by
  have hopen : p ∈ c.openPositions seen := mem_openPositions.2 ⟨ht, hp⟩
  by_cases hv : c.Violates out seen
  · rw [status_eq_eliminated.2 hv, status_eq_eliminated.2 ((violates_insert ht).2 (.inr hv))]
    rfl
  · have hlive : c.status out seen = .live (c.openPositions seen).card :=
      status_eq_live.2 ⟨hv, rfl, Finset.card_ne_zero_of_mem hopen⟩
    rw [hlive]
    by_cases ho : out p = some (c.polarity.test p)
    · have hv' : ¬ c.Violates out (insert p seen) := fun h =>
        ((violates_insert ht).1 h).elim (· ho) hv
      rw [status, if_neg hv', openPositions_insert, Finset.card_erase_of_mem hopen]
      simp [ClauseStatus.advance, ho]
    · rw [status_eq_eliminated.2 ((violates_insert ht).2 (.inl ho))]
      simp [ClauseStatus.advance, ho]

/-- Other outcomes leave it. -/
theorem status_insert_of_not_test (ht : c.mask.test p = false) :
    c.status out (insert p seen) = c.status out seen := by
  have hv : c.Violates out (insert p seen) ↔ c.Violates out seen := by
    simp [Violates, ht]
  have ho : (c.openPositions seen).erase p = c.openPositions seen :=
    Finset.erase_eq_of_notMem fun h => by
      rw [(mem_openPositions.1 h).1] at ht
      cases ht
  simp only [status, hv, openPositions_insert, ho]

theorem satisfied_insert (h : c.status out seen = .satisfied) :
    c.status out (insert p seen) = .satisfied := by
  by_cases ht : c.mask.test p = true
  · by_cases hp : p ∈ seen
    · rwa [Finset.insert_eq_of_mem hp]
    · rw [status_insert ht hp, h]
      rfl
  · rwa [status_insert_of_not_test (Bool.eq_false_iff.2 ht)]

theorem live_of_live_insert {n : Nat} (h : c.status out (insert p seen) = .live n) :
    ∃ m, c.status out seen = .live m := by
  by_cases ht : c.mask.test p = true
  · by_cases hp : p ∈ seen
    · rw [Finset.insert_eq_of_mem hp] at h
      exact ⟨n, h⟩
    · rw [status_insert ht hp] at h
      cases hs : c.status out seen with
      | live m => exact ⟨m, rfl⟩
      | satisfied => simp [hs, ClauseStatus.advance] at h
      | eliminated => simp [hs, ClauseStatus.advance] at h
  · rw [status_insert_of_not_test (Bool.eq_false_iff.2 ht)] at h
    exact ⟨n, h⟩

theorem holds_of_satisfied (h : c.status out seen = .satisfied) : c.Holds out := by
  intro p ht
  obtain ⟨hv, ho⟩ := status_eq_satisfied.1 h
  have hp : p ∈ seen := by
    by_contra hp
    have := mem_openPositions.2 ⟨ht, hp⟩
    rw [ho] at this
    simp at this
  by_contra hne
  exact hv ⟨p, hp, ht, hne⟩

theorem Holds.not_eliminated (h : c.Holds out) : c.status out seen ≠ .eliminated := by
  rw [Ne, status_eq_eliminated]
  rintro ⟨p, _, ht, hne⟩
  exact hne (h p ht)

end CompiledClause

/-! ## Tables -/

namespace MatchingTables

/-- The statuses of all clauses. -/
def statuses (t : MatchingTables) (out : Nat → Option Bool) (seen : Finset Nat) : Statuses :=
  fun j =>
    match t.clauses[j]? with
    | some c => c.status out seen
    | none => .eliminated

/-- The tables fit together. -/
structure Consistent (t : MatchingTables) : Prop extends t.DocumentsListed where
  masks : ∀ c ∈ t.clauses, c.mask.length = t.order.length
  literalCount : ∀ c ∈ t.clauses, c.literalCount = (c.openPositions ∅).card
  clausesPerDocument : t.clausesPerDocument.length = t.documentNames.length ∧
    ∀ d < t.documentNames.length, t.clausesPerDocument[d]? =
      some ((Finset.range t.clauses.length).filter fun j => t.Has j d).card
  references : ∀ p < t.order.length, ∃ indices, t.references[p]? = some indices ∧
    indices.Nodup ∧ ∀ j, j ∈ indices ↔ ∃ c, t.clauses[j]? = some c ∧ c.mask.test p = true

variable {t : MatchingTables} {out : Nat → Option Bool} {seen : Finset Nat} {j p : Nat}
  {c : CompiledClause}

theorem statuses_of_getElem? (hc : t.clauses[j]? = some c) :
    t.statuses out seen j = c.status out seen := by
  simp [statuses, hc]

/-- No live clause of an undetermined document references a position. -/
def Irrelevant (t : MatchingTables) (st : Statuses) (p : Nat) : Prop :=
  ∀ j c, t.clauses[j]? = some c → c.mask.test p = true → (∃ n, st j = .live n) →
    ∀ d ∈ c.documents, ∃ i, t.Has i d ∧ st i = .satisfied

theorem Irrelevant.insert {q : Nat} (h : t.Irrelevant (t.statuses out seen) p) :
    t.Irrelevant (t.statuses out (insert q seen)) p := by
  rintro j c hc ht ⟨n, hn⟩ d hd
  rw [statuses_of_getElem? hc] at hn
  obtain ⟨m, hm⟩ := CompiledClause.live_of_live_insert hn
  obtain ⟨i, hi, hsat⟩ := h j c hc ht ⟨m, by rw [statuses_of_getElem? hc, hm]⟩ d hd
  obtain ⟨c', hc', hd'⟩ := hi
  refine ⟨i, ⟨c', hc', hd'⟩, ?_⟩
  rw [statuses_of_getElem? hc'] at hsat ⊢
  exact CompiledClause.satisfied_insert hsat

end MatchingTables

namespace Represents

open MatchingTables

variable {t : MatchingTables} {st st' : Statuses} {s : MatchState} {p : Nat}
  {out : Nat → Option Bool} {seen : Finset Nat}

theorem congr (h : Represents t st s) (hst : ∀ j < t.clauses.length, st j = st' j) :
    Represents t st' s := by
  have hhas (j d : Nat) (hj : t.Has j d) : st j = st' j := hst j hj.lt
  constructor
  case live =>
    intro j
    rw [h.live j]
    exact and_congr_right fun hj => by rw [hst j hj]
  case unsatisfied =>
    intro j n hj hn
    exact h.unsatisfied j n hj (by rw [hst j hj, hn])
  case liveClauses =>
    intro d hd
    rw [h.liveClauses d hd]
    congr 2
    ext j
    rw [mem_remaining, mem_remaining]
    exact and_congr_right fun hj => by rw [hhas j d hj]
  case documents_length => exact h.documents_length
  case counted => exact h.counted
  case matched =>
    intro d hd
    rw [h.matched d hd]
    exact exists_congr fun j => and_congr_right fun hj => by rw [hhas j d hj]
  case eliminated =>
    intro d hd
    rw [h.eliminated d hd]
    exact forall₂_congr fun j hj => by rw [hhas j d hj]

theorem isRelevant_iff (h : Represents t st s) (ht : t.Consistent) (hp : p < t.order.length) :
    s.isRelevant t p = false ↔ t.Irrelevant st p := by
  obtain ⟨indices, hrefs, -, hmem⟩ := ht.references p hp
  rw [← Bool.not_eq_true]
  simp only [MatchState.isRelevant, hrefs, Option.getD_some, List.any_eq_true,
    Bool.and_eq_true, Option.any_eq_true, Option.map_eq_some_iff, hmem]
  constructor
  · intro hno j c hc htest hlive d hd
    by_contra hun
    refine hno ⟨j, ⟨c, hc, htest⟩, (h.live j).2 ⟨(List.getElem?_eq_some_iff.1 hc).1, hlive⟩,
      c.documents, ⟨c, hc, rfl⟩, d, hd, ?_⟩
    have hlt := ht.named c (List.mem_of_getElem? hc) d hd
    have hund := (h.undetermined_iff hlt).2 ⟨fun i hi hsat => hun ⟨i, hi, hsat⟩, j, ⟨c, hc, hd⟩, by
      obtain ⟨n, hn⟩ := hlive
      simp [hn]⟩
    simp [hund]
  · rintro hirr ⟨j, ⟨c, hc, htest⟩, hlive, docs, ⟨c', hc', rfl⟩, d, hd, hund⟩
    rw [hc, Option.some.injEq] at hc'
    subst hc'
    have hlt := ht.named c (List.mem_of_getElem? hc) d hd
    obtain ⟨i, hi, hsat⟩ := hirr j c hc htest ((h.live j).1 hlive).2 d hd
    exact ((h.undetermined_iff hlt).1 (by simpa using hund)).1 i hi hsat

/-- The outcome of a predicate advances all clauses of a list that references it. -/
theorem settleAll (h : Represents t st s) (ht : t.DocumentsListed) (outcome : Option Bool)
    {indices : List Nat} (hnodup : indices.Nodup) (hlt : ∀ j ∈ indices, j < t.clauses.length) :
    Represents t
      (fun j => if j ∈ indices then
        (st j).advance (outcome = (t.clauses[j]?).map fun c => c.polarity.test p) else st j)
      (indices.foldl (MatchState.settle t p outcome) s) := by
  induction indices generalizing st s with
  | nil => simpa using h
  | cons j rest ih =>
    obtain ⟨hj, hrest⟩ := List.nodup_cons.1 hnodup
    have hc := List.getElem?_eq_getElem (hlt j (by simp))
    have hstep := ih (h.settle ht hc p outcome) hrest fun i hi => hlt i (by simp [hi])
    rw [List.foldl_cons]
    refine hstep.congr fun i _ => ?_
    by_cases hi : i = j
    · subst hi
      simp [hj, hc]
    · simp [hi, Statuses.put_ne]

/-- Evaluating a position keeps the bookkeeping in step. -/
theorem evaluate (h : Represents t (t.statuses out seen) s) (ht : t.Consistent)
    (hp : p < t.order.length) (hseen : p ∉ seen) :
    Represents t (t.statuses out (insert p seen))
      (((t.references[p]?).getD []).foldl (MatchState.settle t p (out p)) s) := by
  obtain ⟨indices, hrefs, hnodup, hmem⟩ := ht.references p hp
  have hlt (j : Nat) (hj : j ∈ indices) : j < t.clauses.length := by
    obtain ⟨c, hc, _⟩ := (hmem j).1 hj
    exact (List.getElem?_eq_some_iff.1 hc).1
  rw [hrefs, Option.getD_some]
  refine (h.settleAll (p := p) ht.toDocumentsListed (out p) hnodup hlt).congr fun j hj => ?_
  have hc := List.getElem?_eq_getElem hj
  rw [statuses_of_getElem? hc, statuses_of_getElem? hc]
  by_cases htest : (t.clauses[j]).mask.test p = true
  · rw [if_pos ((hmem j).2 ⟨_, hc, htest⟩), CompiledClause.status_insert htest hseen, hc]
    rfl
  · have hnot : j ∉ indices := fun hj' => by
      obtain ⟨c, hc', ht'⟩ := (hmem j).1 hj'
      rw [hc, Option.some.injEq] at hc'
      exact htest (hc' ▸ ht')
    rw [if_neg hnot, CompiledClause.status_insert_of_not_test (Bool.eq_false_iff.2 htest)]

end Represents

/-! ## The start -/

/-- Before anything is satisfied all clauses are live, with all of their literals open. -/
def MatchingTables.openStatuses (t : MatchingTables) : Statuses := fun j =>
  .live ((t.clauses[j]?.map (·.literalCount)).getD 0)

namespace MatchState

/-- Nothing is determined. -/
def blank (t : MatchingTables) : MatchState where
  documents := List.replicate t.documentNames.length .undetermined
  liveClauses := t.clausesPerDocument
  live := .full t.clauses.length
  unsatisfied := t.clauses.map (·.literalCount)
  undetermined := t.documentNames.length

/-- Determine the documents without clauses. -/
theorem eliminateEmpty_spec (counts : List Nat) {k : Nat} {s : MatchState} (h : s.IsCounted) :
    let s' := (counts.zipIdx k).foldl
      (fun s d => if d.1 = 0 then s.determine d.2 .eliminated else s) s
    s'.live = s.live ∧ s'.unsatisfied = s.unsatisfied ∧ s'.liveClauses = s.liveClauses ∧
      s'.documents.length = s.documents.length ∧ s'.IsCounted ∧
      ∀ e, s'.documents[e]? =
        if k ≤ e ∧ counts[e - k]? = some 0 ∧ s.documents[e]? = some .undetermined
        then some .eliminated else s.documents[e]? := by
  induction counts generalizing k s with
  | nil => simp [h]
  | cons n rest ih =>
    have hshift (e : Nat) (he : e ≠ k) :
        (k + 1 ≤ e ∧ rest[e - (k + 1)]? = some 0) ↔ (k ≤ e ∧ (n :: rest)[e - k]? = some 0) := by
      by_cases hle : k ≤ e
      · obtain ⟨m, rfl⟩ : ∃ m, e = k + (m + 1) := ⟨e - k - 1, by omega⟩
        have h1 : k + (m + 1) - (k + 1) = m := by omega
        have h2 : k + (m + 1) - k = m + 1 := by omega
        simp only [h1, h2, List.getElem?_cons_succ]
        refine and_congr_left fun _ => ?_
        omega
      · simp only [hle, false_and, iff_false, not_and]
        omega
    rw [List.zipIdx_cons, List.foldl_cons]
    by_cases hn : n = 0
    · subst hn
      obtain ⟨hl, hu, hc, hlen, hcount, hdocs⟩ :=
        ih (k := k + 1) (h.determine (d := k) (o := .eliminated) (by decide))
      simp only [if_true]
      refine ⟨by simpa using hl, by simpa using hu, by simpa using hc, by simpa using hlen, hcount,
        fun e => ?_⟩
      rw [hdocs, determine_documents]
      by_cases he : e = k
      · subst he
        have hlt : ¬ e + 1 ≤ e := by omega
        simp [hlt]
      · simp only [he, false_and, if_false, ← and_assoc, hshift e he]
    · obtain ⟨hl, hu, hc, hlen, hcount, hdocs⟩ := ih (k := k + 1) h
      simp only [hn, if_false]
      refine ⟨hl, hu, hc, hlen, hcount, fun e => ?_⟩
      rw [hdocs]
      by_cases he : e = k
      · subst he
        have hlt : ¬ e + 1 ≤ e := by omega
        simp [hlt, hn]
      · simp only [← and_assoc, hshift e he]

end MatchState

namespace Represents

open MatchingTables

variable {t : MatchingTables} {st : Statuses} {s : MatchState}

/-- The statuses before the clauses without literals are satisfied, up to the `k`-th one. -/
theorem satisfyEmpty {k : Nat} {clauses : List CompiledClause}
    (hdrop : t.clauses.drop k = clauses) (hst : ∀ j < t.clauses.length, k ≤ j →
      st j = .live ((t.clauses[j]?.map (·.literalCount)).getD 0))
    (h : Represents t st s) :
    Represents t
      (fun j => if k ≤ j then .ofOpen ((t.clauses[j]?.map (·.literalCount)).getD 0) else st j)
      ((clauses.zipIdx k).foldl
        (fun s c => if c.1.literalCount = 0 then s.satisfy c.2 c.1 else s) s) := by
  induction clauses generalizing k st s with
  | nil =>
    refine h.congr fun j hj => ?_
    have hk : ¬ k ≤ j := by
      have := List.drop_eq_nil_iff.1 hdrop
      omega
    simp [hk]
  | cons c rest ih =>
    have hc : t.clauses[k]? = some c := by
      rw [← List.head?_drop, hdrop]
      rfl
    have hlt : k < t.clauses.length := (List.getElem?_eq_some_iff.1 hc).1
    have hlive : st k = .live c.literalCount := by
      rw [hst k hlt (Nat.le_refl k), hc]
      rfl
    have hrest : t.clauses.drop (k + 1) = rest := by
      rw [← List.tail_drop, hdrop]
      rfl
    rw [List.zipIdx_cons, List.foldl_cons]
    by_cases hz : c.literalCount = 0
    · have hsat := h.satisfy hc hlive
      have hst' (j : Nat) (hj : j < t.clauses.length) (hkj : k + 1 ≤ j) :
          st.put k .satisfied j = .live ((t.clauses[j]?.map (·.literalCount)).getD 0) := by
        rw [Statuses.put_ne _ _ (by omega)]
        exact hst j hj (by omega)
      simp only [hz, if_true]
      refine (ih hrest hst' hsat).congr fun j _ => ?_
      by_cases hj : j = k
      · subst hj
        have hn : ¬ j + 1 ≤ j := by omega
        simp [hn, hc, hz, ClauseStatus.ofOpen]
      · have hiff : k + 1 ≤ j ↔ k ≤ j := by omega
        simp [hiff, Statuses.put_ne _ _ hj]
    · simp only [hz, if_false]
      refine (ih hrest (fun j hj hkj => hst j hj (by omega)) h).congr fun j _ => ?_
      by_cases hj : j = k
      · subst hj
        have hn : ¬ j + 1 ≤ j := by omega
        simp [hn, hc, hlive, ClauseStatus.ofOpen, hz]
      · have hiff : k + 1 ≤ j ↔ k ≤ j := by omega
        simp [hiff]

/-- Documents without clauses are eliminated. -/
theorem eliminateEmpty (ht : t.Consistent) :
    Represents t t.openStatuses (t.clausesPerDocument.zipIdx.foldl
      (fun s d => if d.1 = 0 then s.determine d.2 .eliminated else s) (.blank t)) := by
  have hcounted : (MatchState.blank t).IsCounted := by
    simp [MatchState.IsCounted, MatchState.blank]
  obtain ⟨hl, hu, hlc, hlen, hcount, hdocs⟩ :=
    MatchState.eliminateEmpty_spec t.clausesPerDocument (k := 0) hcounted
  have hund (d : Nat) (hd : d < t.documentNames.length) :
      (MatchState.blank t).documents[d]? = some .undetermined := by
    simp [MatchState.blank, hd]
  have hremaining (d : Nat) : t.remaining t.openStatuses d =
      (Finset.range t.clauses.length).filter fun j => t.Has j d := by
    simp [remaining, openStatuses]
  constructor
  case live =>
    intro j
    rw [hl]
    simp [MatchState.blank, openStatuses, Bitmask.test_full]
  case unsatisfied =>
    intro j n hj hn
    rw [hu]
    simp only [openStatuses, List.getElem?_eq_getElem hj, Option.map_some, Option.getD_some,
      ClauseStatus.live.injEq] at hn
    simp [MatchState.blank, hj, hn]
  case liveClauses =>
    intro d hd
    rw [hlc, hremaining]
    exact ht.clausesPerDocument.2 d hd
  case documents_length =>
    rw [hlen]
    simp [MatchState.blank]
  case counted => exact hcount
  case matched =>
    intro d hd
    rw [hdocs, hund d hd]
    simp only [openStatuses, reduceCtorEq, and_false, exists_false, iff_false]
    split <;> simp
  case eliminated =>
    intro d hd
    rw [hdocs, hund d hd, ← remaining_eq_empty, hremaining, ← Finset.card_eq_zero]
    simp only [Nat.zero_le, Nat.sub_zero, true_and, and_true, ht.clausesPerDocument.2 d hd,
      Option.some.injEq]
    split <;> simp_all

/-- Nothing is evaluated at the start. -/
theorem start (ht : t.Consistent) (out : Nat → Option Bool) :
    Represents t (t.statuses out ∅) (.start t) := by
  have hsatisfied := (eliminateEmpty ht).satisfyEmpty (k := 0) (List.drop_zero (l := t.clauses))
    fun j _ _ => rfl
  refine hsatisfied.congr fun j hj => ?_
  have hc := List.getElem?_eq_getElem hj
  have hnone : ¬ (t.clauses[j]).Violates out ∅ := by simp [CompiledClause.Violates]
  rw [statuses_of_getElem? hc, CompiledClause.status, if_neg hnone, hc,
    ← ht.literalCount _ (List.getElem_mem hj)]
  simp

end Represents

/-! ## The run -/

namespace MatchRun

open MatchingTables

/-- The bookkeeping after the positions below `k` had their turn, those in `seen` evaluated. -/
structure RunsTo (t : MatchingTables) (predicates : PredicateTable) (evaluate : PredicateEvaluator)
    (out : Nat → Option Bool) (k : Nat) (seen : Finset Nat) (r : MatchRun) : Prop where
  represents : Represents t (t.statuses out seen) r.state
  before : ∀ p ∈ seen, p < k
  passed : ∀ p < k, p ∉ seen → t.Irrelevant (t.statuses out seen) p
  probes : ∀ q ∈ r.probes, q.outcome = evaluate q.predicate ∧
    ∃ id ∈ t.order, predicates.get? id = some q.predicate

variable {t : MatchingTables} {predicates : PredicateTable} {evaluate : PredicateEvaluator}
  {out : Nat → Option Bool} {k : Nat} {seen : Finset Nat} {r : MatchRun} {id : PredicateId}

theorem visit_of_irrelevant (hrel : r.state.isRelevant t k = false) :
    r.visit t predicates evaluate k id = r := by
  simp [MatchRun.visit, hrel]

theorem visit_of_relevant (hrel : r.state.isRelevant t k = true) {e : Expression}
    (hid : predicates.get? id = some e) :
    r.visit t predicates evaluate k id =
      { state := ((t.references[k]?).getD []).foldl
          (MatchState.settle t k (evaluate e).toOption) r.state
        probes := r.probes ++ [⟨e, evaluate e⟩] } := by
  simp [MatchRun.visit, hrel, hid]

/-- A position that is irrelevant is passed over. -/
theorem RunsTo.pass (h : RunsTo t predicates evaluate out k seen r) (ht : t.Consistent)
    (hk : k < t.order.length) (hrel : r.state.isRelevant t k = false) :
    RunsTo t predicates evaluate out (k + 1) seen r := by
  refine ⟨h.represents, fun p hp => Nat.lt_succ_of_lt (h.before p hp), ?_, h.probes⟩
  intro p hp hseen
  rcases Nat.lt_succ_iff_lt_or_eq.1 hp with hlt | rfl
  · exact h.passed p hlt hseen
  · exact (h.represents.isRelevant_iff ht hk).1 hrel

/-- Evaluating the position whose turn it is. -/
theorem RunsTo.ask (h : RunsTo t predicates evaluate out k seen r) (ht : t.Consistent)
    (hturn : t.order[k]? = some id) {e : Expression} (hid : predicates.get? id = some e)
    (hout : out k = (evaluate e).toOption) :
    RunsTo t predicates evaluate out (k + 1) (insert k seen)
      { state := ((t.references[k]?).getD []).foldl
          (MatchState.settle t k (evaluate e).toOption) r.state
        probes := r.probes ++ [⟨e, evaluate e⟩] } := by
  have hk := (List.getElem?_eq_some_iff.1 hturn).1
  have hnot : k ∉ seen := fun hmem => Nat.lt_irrefl k (h.before k hmem)
  refine ⟨?_, ?_, ?_, ?_⟩
  · rw [← hout]
    exact h.represents.evaluate ht hk hnot
  · intro p hp
    rcases Finset.mem_insert.1 hp with rfl | hp
    · exact Nat.lt_succ_self p
    · exact Nat.lt_succ_of_lt (h.before p hp)
  · intro p hp hseen
    rw [Finset.mem_insert, not_or] at hseen
    exact (h.passed p (Nat.lt_of_le_of_ne (Nat.le_of_lt_succ hp) hseen.1) hseen.2).insert
  · intro q hq
    rcases List.mem_append.1 hq with hq | hq
    · exact h.probes q hq
    · rw [List.mem_singleton.1 hq]
      exact ⟨rfl, id, List.mem_of_getElem? hturn, hid⟩

/-- The turn of a position: it is evaluated or passed over. -/
theorem RunsTo.visit (h : RunsTo t predicates evaluate out k seen r) (ht : t.Consistent)
    (hturn : t.order[k]? = some id) {e : Expression} (hid : predicates.get? id = some e)
    (hout : out k = (evaluate e).toOption) :
    ∃ seen', RunsTo t predicates evaluate out (k + 1) seen'
      (r.visit t predicates evaluate k id) := by
  have hk := (List.getElem?_eq_some_iff.1 hturn).1
  cases hrel : r.state.isRelevant t k with
  | false =>
    rw [visit_of_irrelevant hrel]
    exact ⟨seen, h.pass ht hk hrel⟩
  | true =>
    rw [visit_of_relevant hrel hid]
    exact ⟨insert k seen, h.ask ht hturn hid hout⟩

/-- Once every position had its turn, or nothing is left to determine, nothing is undetermined. -/
theorem RunsTo.determined (h : RunsTo t predicates evaluate out k seen r) (ht : t.Consistent)
    (hend : t.order.length ≤ k ∨ r.state.undetermined = 0) {d : Nat}
    (hd : d < t.documentNames.length) : r.state.documents[d]? ≠ some .undetermined := by
  intro hund
  rcases hend with hk | hz
  · obtain ⟨hnone, j, hj, hne⟩ := (h.represents.undetermined_iff hd).1 hund
    obtain ⟨c, hc, hdc⟩ := hj
    have hnsat := hnone j ⟨c, hc, hdc⟩
    rw [statuses_of_getElem? hc] at hne hnsat
    -- the clause is live, so one of its positions is open; but that one had its turn
    have hopen : (c.openPositions seen).Nonempty := by
      rw [Finset.nonempty_iff_ne_empty]
      intro he
      exact hnsat (CompiledClause.status_eq_satisfied.2
        ⟨fun hv => hne (CompiledClause.status_eq_eliminated.2 hv), he⟩)
    obtain ⟨p, hp⟩ := hopen
    obtain ⟨htest, hseen⟩ := CompiledClause.mem_openPositions.1 hp
    have hpk : p < k := by
      have hlt := CompiledClause.lt_of_test htest
      rw [ht.masks c (List.mem_of_getElem? hc)] at hlt
      omega
    have hlive : ∃ n, t.statuses out seen j = .live n := by
      rw [statuses_of_getElem? hc]
      exact ClauseStatus.exists_live hnsat hne
    obtain ⟨i, hi, hsat⟩ := h.passed p hpk hseen j c hc htest hlive d hdc
    exact hnone i hi hsat
  · have hcount := h.represents.counted
    unfold MatchState.IsCounted at hcount
    rw [hz] at hcount
    exact List.count_eq_zero.1 hcount.symm (List.mem_of_getElem? hund)

/-- What every turn keeps holds after a run, which ends with the last turn or when nothing is
undetermined. The induction is on the turns left. -/
theorem run_induction {motive : Nat → MatchRun → Prop}
    (hstep : ∀ k id r, t.order[k]? = some id → motive k r →
      motive (k + 1) (r.visit t predicates evaluate k id))
    {rest : List PredicateId} (hrest : t.order.drop k = rest) (h : motive k r) :
    ∃ k', motive k' (run t predicates evaluate (rest.zipIdx k) r) ∧
      (t.order.length ≤ k' ∨ (run t predicates evaluate (rest.zipIdx k) r).state.undetermined = 0) := by
  induction rest generalizing k r with
  | nil => exact ⟨k, h, .inl (List.drop_eq_nil_iff.1 hrest)⟩
  | cons id rest ih =>
    have hid : t.order[k]? = some id := by
      rw [← List.head?_drop, hrest]
      rfl
    have htail : t.order.drop (k + 1) = rest := by
      rw [← List.tail_drop, hrest]
      rfl
    rw [List.zipIdx_cons, MatchRun.run]
    split
    · rename_i hz
      exact ⟨k, h, .inr hz⟩
    · exact ih htail (hstep k id r hid h)

end MatchRun

namespace MatchingTables

variable {t : MatchingTables} {predicates : PredicateTable} {evaluate : PredicateEvaluator}
  {out : Nat → Option Bool} {d : Nat}

theorem exists_runsTo (ht : t.Consistent)
    (hout : ∀ p id, t.order[p]? = some id →
      ∃ e, predicates.get? id = some e ∧ out p = (evaluate e).toOption) :
    ∃ k seen, MatchRun.RunsTo t predicates evaluate out k seen (t.run predicates evaluate) ∧
      (t.order.length ≤ k ∨ (t.run predicates evaluate).state.undetermined = 0) := by
  have hstart : ∃ seen, MatchRun.RunsTo t predicates evaluate out 0 seen { state := .start t } :=
    ⟨∅, .start ht out, by simp, by simp, by simp⟩
  have hstep (k : Nat) (id : PredicateId) (r : MatchRun) (hid : t.order[k]? = some id)
      (hrun : ∃ seen, MatchRun.RunsTo t predicates evaluate out k seen r) :
      ∃ seen, MatchRun.RunsTo t predicates evaluate out (k + 1) seen
        (r.visit t predicates evaluate k id) := by
    obtain ⟨seen, hrun⟩ := hrun
    obtain ⟨e, he, ho⟩ := hout k id hid
    exact hrun.visit ht hid he ho
  obtain ⟨k, ⟨seen, hrun⟩, hend⟩ := MatchRun.run_induction
    (motive := fun k r => ∃ seen, MatchRun.RunsTo t predicates evaluate out k seen r)
    hstep (List.drop_zero (l := t.order)) hstart
  exact ⟨k, seen, hrun, hend⟩

/-- A document is matched exactly if one of its clauses holds. -/
theorem matched_iff (ht : t.Consistent)
    (hout : ∀ p id, t.order[p]? = some id →
      ∃ e, predicates.get? id = some e ∧ out p = (evaluate e).toOption)
    (hd : d < t.documentNames.length) :
    (t.run predicates evaluate).state.documents[d]? = some .matched ↔
      ∃ c ∈ t.clauses, d ∈ c.documents ∧ c.Holds out := by
  obtain ⟨k, seen, h, hend⟩ := exists_runsTo ht hout
  rw [h.represents.matched d hd]
  constructor
  · rintro ⟨j, ⟨c, hc, hdc⟩, hsat⟩
    rw [statuses_of_getElem? hc] at hsat
    exact ⟨c, List.mem_of_getElem? hc, hdc, CompiledClause.holds_of_satisfied hsat⟩
  · rintro ⟨c, hc, hdc, hholds⟩
    obtain ⟨j, hj⟩ := List.getElem?_of_mem hc
    have hne : t.statuses out seen j ≠ .eliminated := by
      rw [statuses_of_getElem? hj]
      exact hholds.not_eliminated
    rcases h.represents.documents_cases hd with hs | hs | hs
    · exact absurd hs (h.determined ht hend hd)
    · exact (h.represents.matched d hd).1 hs
    · exact absurd hs (h.represents.not_eliminated hd ⟨c, hj, hdc⟩ hne)

end MatchingTables
end PolicyDecision
