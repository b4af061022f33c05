import PolicyDecision.Proofs.Index.Budget
import PolicyDecision.Proofs.Index.CheckedRun

/-!
# PolicyDecision.Proofs.Index.Bookkeeping

What the counters of a retrieval say of the formulas.

At every moment each clause has learned of some predicates: those that were evaluated, and within a turn
the one whose turn it is as soon as the clause is settled. All counters, bits and states are functions of
what the clauses have learned.

* `Clause.openLiterals`: the literals whose predicate the clause has not learned of.
* `MatchState.Keeps`: the bookkeeping agrees with what the clauses have learned.
* `MatchRun.after`, `MatchRun.within`: the moments of a run, between two turns and within one.
* `CanonicalIndex.retrieve_bookkeeping`: the bookkeeping agrees at every moment of a retrieval.
-/

namespace PolicyDecision

/-! ## Open literals -/

namespace Clause

/-- How many literals have a predicate that was not evaluated. -/
def openLiterals (asked : List PredicateId) (c : Clause) : Nat :=
  c.literals.items.countP fun l => !l.isSettled asked

variable {c : Clause} {asked : List PredicateId}

/-- Each literal of a reduced clause has a predicate of its own. -/
theorem IsReduced.predicates_nodup (h : c.IsReduced) : c.predicates.Nodup := by
  refine List.pairwise_filterMap.2 (List.Pairwise.imp_of_mem ?_ c.literals.nodup)
  rintro (_ | ⟨i, negated⟩) (_ | ⟨j, negated'⟩) hl hl' hne _ ⟨⟩ _ ⟨⟩ rfl
  cases negated <;> cases negated'
  · exact hne rfl
  · exact h.no_complement i hl' hl
  · exact h.no_complement i hl hl'
  · exact hne rfl

theorem openLiterals_eq (asked : List PredicateId) (c : Clause) :
    c.openLiterals asked = c.predicates.countP fun id => !asked.contains id := by
  rw [openLiterals, predicates, List.countP_filterMap]
  refine List.countP_congr fun l _ => ?_
  cases l <;> simp [Literal.isSettled, Literal.predicate?]

end Clause

namespace MatchingTables

variable {order : List PredicateId} {asked : List PredicateId} {seen : Finset Nat} {c : Clause}
  {docs : List Nat}

/-- A compiled clause counts the open literals. -/
theorem card_openPositions_compileClause (hn : order.Nodup) (hr : c.IsReduced)
    (hin : ∀ id ∈ c.predicates, id ∈ order) (hseen : PositionsOf order asked seen) :
    ((compileClause order c docs).openPositions seen).card = c.openLiterals asked := by
  have hopen : (compileClause order c docs).openPositions seen = (Finset.range order.length).filter
      fun p => order[p]?.any (fun id => !asked.contains id && c.predicates.contains id) = true := by
    ext p
    rw [CompiledClause.mem_openPositions, test_compileClause_mask hn, Finset.mem_filter,
      Finset.mem_range, Option.any_eq_true]
    constructor
    · rintro ⟨⟨id, hid, hp⟩, hnot⟩
      refine ⟨(List.getElem?_eq_some_iff.1 hp).1, id, hp, ?_⟩
      simpa [hid] using fun hmem => hnot ((hseen p id hp).2 hmem)
    · rintro ⟨-, id, hp, hid⟩
      rw [Bool.and_eq_true, Bool.not_eq_true', List.contains_iff_mem] at hid
      refine ⟨⟨id, hid.2, hp⟩, fun hmem => ?_⟩
      have hasked := List.contains_iff_mem.2 ((hseen p id hp).1 hmem)
      rw [hid.1] at hasked
      cases hasked
  have hperm : (order.filter fun id => c.predicates.contains id).Perm c.predicates := by
    refine (List.perm_ext_iff_of_nodup (hn.filter _) hr.predicates_nodup).2 fun id => ?_
    rw [List.mem_filter, List.contains_iff_mem, and_iff_right_iff_imp]
    exact hin id
  rw [hopen, card_filter_range, countP_range_getElem?, Clause.openLiterals_eq,
    ← hperm.countP_eq, List.countP_filter]

end MatchingTables

/-! ## Agreement -/

namespace MatchState

open MatchingTables

/-- The bookkeeping agrees with what each clause has learned, `known c` being the predicates that the
clause `c` has learned of. -/
structure Keeps (formulas : List Formula) (o : Outcomes) (known : Clause → List PredicateId)
    (s : MatchState) : Prop where
  documents_length : s.documents.length = formulas.length
  undetermined : s.undetermined = s.documents.count .undetermined
  /-- The clauses of each document that are not refuted are counted. -/
  liveClauses : ∀ (d : Nat) f, formulas[d]? = some f →
    s.liveClauses[d]? = some ((satisfiable f).countP fun c => !c.isRefuted (known c) o)
  live : ∀ (j : Nat) c, (clausesOf formulas)[j]? = some c →
    (s.live.test j = true ↔ c.isConfirmed (known c) o = false ∧ c.isRefuted (known c) o = false)
  /-- The open literals of a live clause are counted, and all others hold. -/
  unsatisfied : ∀ (j : Nat) c, (clausesOf formulas)[j]? = some c → s.live.test j = true →
    s.unsatisfied[j]? = some (c.openLiterals (known c)) ∧
      ∀ l ∈ c.literals, l.isSettled (known c) = true → l.truth? o = some true
  matched : ∀ (d : Nat) f, formulas[d]? = some f →
    (s.documents[d]? = some .matched ↔ ∃ c ∈ satisfiable f, c.isConfirmed (known c) o = true)
  eliminated : ∀ (d : Nat) f, formulas[d]? = some f →
    (s.documents[d]? = some .eliminated ↔ ∀ c ∈ satisfiable f, c.isRefuted (known c) o = true)

end MatchState

namespace MatchingTables

variable {documents : List (String × Formula)} {strategy : OrderStrategy}
  {predicates : PredicateTable} {o : Outcomes} {asked : List PredicateId} {seen : Finset Nat}
  {known : Clause → List PredicateId} {st : Statuses} {s : MatchState} {j d n : Nat} {c : Clause}
  {name : String} {f : Formula}

/-- A live clause has as many open positions as open literals. -/
theorem openLiterals_of_live (h : Closed documents predicates)
    (hseen : PositionsOf (layout documents strategy).order asked seen)
    (hc : (clausesOf (documents.map (·.2)))[j]? = some c)
    (hlive : (layout documents strategy).statuses (outcomesAt (layout documents strategy).order o) seen j =
      .live n) : c.openLiterals asked = n := by
  obtain ⟨f, hf, hsat⟩ := mem_clausesOf.1 (List.mem_of_getElem? hc)
  obtain ⟨d, hd, rfl⟩ := List.mem_map.1 hf
  rw [statuses_of_getElem? (getElem?_layout_clauses.2 ⟨c, hc, rfl⟩)] at hlive
  obtain ⟨-, hcard, -⟩ := CompiledClause.status_eq_live.1 hlive
  rw [← hcard, card_openPositions_compileClause (layout_order_nodup documents strategy)
    (h.reduced d hd c (mem_satisfiable.1 hsat).1)
    (fun id hid => mem_layout_order_iff.2 ⟨d, hd, c, hsat, hid⟩) hseen]

/-- The statuses are those that the clauses have by what they have learned. -/
def Learned (documents : List (String × Formula)) (strategy : OrderStrategy) (o : Outcomes)
    (known : Clause → List PredicateId) (st : Statuses) : Prop :=
  ∀ (j : Nat) c, (clausesOf (documents.map (·.2)))[j]? = some c →
    ∃ seen, PositionsOf (layout documents strategy).order (known c) seen ∧
      st j = (layout documents strategy).statuses
        (outcomesAt (layout documents strategy).order o) seen j

theorem Learned.satisfied_iff (h : Learned documents strategy o known st)
    (hclosed : Closed documents predicates) (hc : (clausesOf (documents.map (·.2)))[j]? = some c) :
    st j = .satisfied ↔ c.isConfirmed (known c) o = true := by
  obtain ⟨seen, hseen, hst⟩ := h j c hc
  rw [hst]
  exact (statuses_layout hclosed hseen hc).1

theorem Learned.eliminated_iff (h : Learned documents strategy o known st)
    (hclosed : Closed documents predicates) (hc : (clausesOf (documents.map (·.2)))[j]? = some c) :
    st j = .eliminated ↔ c.isRefuted (known c) o = true := by
  obtain ⟨seen, hseen, hst⟩ := h j c hc
  rw [hst]
  exact (statuses_layout hclosed hseen hc).2

theorem Learned.live_iff (h : Learned documents strategy o known st)
    (hclosed : Closed documents predicates) (hc : (clausesOf (documents.map (·.2)))[j]? = some c) :
    (∃ n, st j = .live n) ↔ c.isConfirmed (known c) o = false ∧ c.isRefuted (known c) o = false := by
  rw [← Bool.not_eq_true, ← Bool.not_eq_true, ← h.satisfied_iff hclosed hc,
    ← h.eliminated_iff hclosed hc]
  constructor
  · rintro ⟨n, hn⟩
    rw [hn]
    exact ⟨nofun, nofun⟩
  · rintro ⟨hs, he⟩
    exact ClauseStatus.exists_live hs he

/-- The clauses of a document that are not eliminated are those of its formula that are not refuted. -/
theorem Learned.card_remaining (h : Learned documents strategy o known st)
    (hclosed : Closed documents predicates) (hd : documents[d]? = some (name, f)) :
    ((layout documents strategy).remaining st d).card =
      (satisfiable f).countP fun c => !c.isRefuted (known c) o := by
  have hremaining (j : Nat) : (layout documents strategy).Has j d ∧ st j ≠ .eliminated ↔
      ((clausesOf (documents.map (·.2)))[j]?.any fun c =>
        !c.isRefuted (known c) o && (satisfiable f).contains c) = true := by
    rw [Option.any_eq_true]
    constructor
    · rintro ⟨hj, hne⟩
      obtain ⟨c, hc, hget⟩ := exists_mem_of_has hd hj
      refine ⟨c, hget, ?_⟩
      simpa [hc] using mt (h.eliminated_iff hclosed hget).2 hne
    · rintro ⟨c, hget, hc⟩
      rw [Bool.and_eq_true, Bool.not_eq_true', List.contains_iff_mem] at hc
      refine ⟨has_layout_iff.2 ⟨c, f, hget, by rw [hd]; rfl, hc.2⟩, fun he => ?_⟩
      rw [(h.eliminated_iff hclosed hget).1 he] at hc
      exact nomatch hc.1
  have hperm := filter_clausesOf_perm (List.mem_map_of_mem (f := Prod.snd) (List.mem_of_getElem? hd))
  simp only [remaining, hremaining]
  rw [card_filter_range, layout_clauses, List.length_map, countP_range_getElem?, ← hperm.countP_eq,
    List.countP_filter]

/-- Bookkeeping that represents the statuses agrees with what the clauses have learned. -/
theorem Learned.keeps (h : Learned documents strategy o known st)
    (hclosed : Closed documents predicates) (hs : Represents (layout documents strategy) st s) :
    s.Keeps (documents.map (·.2)) o known := by
  have hlength : (layout documents strategy).documentNames.length = documents.length := by
    rw [layout_documentNames, List.length_map]
  have hdocument (d : Nat) (f : Formula) (hf : (documents.map (·.2))[d]? = some f) :
      d < (layout documents strategy).documentNames.length ∧ ∃ name, documents[d]? = some (name, f) := by
    rw [List.getElem?_map] at hf
    obtain ⟨⟨name, g⟩, hd, rfl⟩ := Option.map_eq_some_iff.1 hf
    exact ⟨hlength ▸ (List.getElem?_eq_some_iff.1 hd).1, name, hd⟩
  have hlive (j : Nat) (c : Clause) (hc : (clausesOf (documents.map (·.2)))[j]? = some c) :
      s.live.test j = true ↔ ∃ n, st j = .live n := by
    rw [hs.live, and_iff_right_iff_imp, layout_clauses, List.length_map]
    exact fun _ => (List.getElem?_eq_some_iff.1 hc).1
  constructor
  case documents_length => rw [hs.documents_length, hlength, List.length_map]
  case undetermined => exact hs.counted
  case liveClauses =>
    intro d f hf
    obtain ⟨hlt, name, hd⟩ := hdocument d f hf
    rw [hs.liveClauses d hlt, h.card_remaining hclosed hd]
  case live =>
    intro j c hc
    rw [hlive j c hc, h.live_iff hclosed hc]
  case unsatisfied =>
    intro j c hc htest
    obtain ⟨n, hn⟩ := (hlive j c hc).1 htest
    obtain ⟨-, hrefuted⟩ := (h.live_iff hclosed hc).1 ⟨n, hn⟩
    obtain ⟨seen, hseen, hst⟩ := h j c hc
    have hlt := ((hs.live j).1 htest).1
    refine ⟨?_, fun l hl hsettled => ?_⟩
    · rw [hs.unsatisfied j n hlt hn, openLiterals_of_live hclosed hseen hc (hst ▸ hn)]
    · by_contra htruth
      rw [Clause.isRefuted_iff.2 ⟨l, hl, hsettled, htruth⟩] at hrefuted
      cases hrefuted
  case matched =>
    intro d f hf
    obtain ⟨hlt, name, hd⟩ := hdocument d f hf
    rw [hs.matched d hlt]
    constructor
    · rintro ⟨j, hj, hsat⟩
      obtain ⟨c, hc, hget⟩ := exists_mem_of_has hd hj
      exact ⟨c, hc, (h.satisfied_iff hclosed hget).1 hsat⟩
    · rintro ⟨c, hc, hconfirmed⟩
      obtain ⟨j, hget, hj⟩ := exists_has_of_mem strategy hd hc
      exact ⟨j, hj, (h.satisfied_iff hclosed hget).2 hconfirmed⟩
  case eliminated =>
    intro d f hf
    obtain ⟨hlt, name, hd⟩ := hdocument d f hf
    rw [hs.eliminated d hlt]
    constructor
    · intro hall c hc
      obtain ⟨j, hget, hj⟩ := exists_has_of_mem strategy hd hc
      exact (h.eliminated_iff hclosed hget).1 (hall j hj)
    · intro hall j hj
      obtain ⟨c, hc, hget⟩ := exists_mem_of_has hd hj
      exact (h.eliminated_iff hclosed hget).2 (hall c hc)

end MatchingTables

/-- A predicate can only be relevant to an undetermined document. -/
theorem MatchState.IsCounted.ne_zero_of_isRelevant {t : MatchingTables} {s : MatchState} {k : Nat}
    (h : s.IsCounted) (hrelevant : s.isRelevant t k = true) : s.undetermined ≠ 0 := by
  obtain ⟨j, -, hj⟩ := List.any_eq_true.1 hrelevant
  rw [Bool.and_eq_true, Option.any_eq_true] at hj
  obtain ⟨-, documents, -, hany⟩ := hj
  obtain ⟨d, -, hd⟩ := List.any_eq_true.1 hany
  rw [h]
  exact (List.count_pos_iff.2 (List.mem_of_getElem? (beq_iff_eq.1 hd))).ne'

/-! ## Moments of a run -/

namespace MatchRun

open MatchingTables

/-- The run before the turn at the position `k`, or at its end if that comes earlier. -/
def after (t : MatchingTables) (predicates : PredicateTable) (evaluate : PredicateEvaluator)
    (k : Nat) : MatchRun :=
  run t predicates evaluate (t.order.zipIdx.take k) { state := .start t }

/-- The clauses that the turn at a position settles first. -/
def settledFirst (t : MatchingTables) (position n : Nat) : List Nat :=
  ((t.references[position]?).getD []).take n

/-- The bookkeeping within the turn at a position, when `n` clauses are settled. -/
def within (t : MatchingTables) (position : Nat) (outcome : Option Bool) (n : Nat)
    (s : MatchState) : MatchState :=
  (settledFirst t position n).foldl (MatchState.settle t position outcome) s

/-- What a clause has learned of then: of the predicate whose turn it is if it is one of the clauses that
are settled. -/
def learned (t : MatchingTables) (formulas : List Formula) (asked : List PredicateId)
    (id : PredicateId) (position n : Nat) (c : Clause) : List PredicateId :=
  if (clausesOf formulas).idxOf c ∈ settledFirst t position n then asked ++ [id] else asked

variable {documents : List (String × Formula)} {strategy : OrderStrategy}
  {predicates : PredicateTable} {evaluate : PredicateEvaluator} {asked : List PredicateId}
  {seen : Finset Nat} {k : Nat} {r : MatchRun} {id : PredicateId} {e : Expression}

theorem IsAsking.keeps (h : IsAsking documents strategy predicates evaluate asked seen k r)
    (hclosed : Closed documents predicates) :
    r.state.Keeps (documents.map (·.2)) (predicates.outcomes evaluate) fun _ => asked := by
  have hlearned : Learned documents strategy (predicates.outcomes evaluate) (fun _ => asked)
      ((layout documents strategy).statuses (outcomesAt (layout documents strategy).order
        (predicates.outcomes evaluate)) seen) :=
    fun _ _ _ => ⟨seen, h.positions, rfl⟩
  exact hlearned.keeps hclosed h.runs.represents

theorem IsAsking.within_keeps (h : IsAsking documents strategy predicates evaluate asked seen k r)
    (hclosed : Closed documents predicates)
    (hturn : (layout documents strategy).order[k]? = some id) (he : predicates.get? id = some e)
    (n : Nat) :
    (within (layout documents strategy) k (evaluate e).toOption n r.state).Keeps
      (documents.map (·.2)) (predicates.outcomes evaluate)
      (learned (layout documents strategy) (documents.map (·.2)) asked id k n) := by
  have hk := (List.getElem?_eq_some_iff.1 hturn).1
  have hnot : k ∉ seen := fun hmem => Nat.lt_irrefl k (h.runs.before k hmem)
  obtain ⟨e', he', hout⟩ : ∃ e, predicates.get? id = some e ∧
      outcomesAt (layout documents strategy).order (predicates.outcomes evaluate) k =
        (evaluate e).toOption := hclosed.turns k id hturn
  obtain rfl : e' = e := Option.some.inj (he'.symm.trans he)
  obtain ⟨indices, hrefs, hnodup, hmem⟩ := consistent_layout.references k hk
  have hfirst : settledFirst (layout documents strategy) k n = indices.take n := by
    rw [settledFirst, hrefs, Option.getD_some]
  have hindices (j : Nat) (hj : j ∈ indices.take n) :
      ∃ c, (layout documents strategy).clauses[j]? = some c ∧ c.mask.test k = true :=
    (hmem j).1 (List.mem_of_mem_take hj)
  have hrepresents := h.runs.represents.settleAll (p := k) consistent_layout.toDocumentsListed
    (evaluate e').toOption (hnodup.sublist (List.take_sublist n indices))
    fun j hj => by
      obtain ⟨c, hc, -⟩ := hindices j hj
      exact (List.getElem?_eq_some_iff.1 hc).1
  rw [within, hfirst]
  refine Learned.keeps (fun j c hc => ?_) hclosed hrepresents
  have hindex : (clausesOf (documents.map (·.2))).idxOf c = j := by
    obtain ⟨hlt, rfl⟩ := List.getElem?_eq_some_iff.1 hc
    exact (clausesOf_nodup _).idxOf_getElem j hlt
  simp only [learned, hfirst, hindex]
  split
  · rename_i hj
    obtain ⟨a, ha, htest⟩ := hindices j hj
    refine ⟨insert k seen, h.positions.insert (layout_order_nodup documents strategy) hturn, ?_⟩
    rw [statuses_of_getElem? ha, statuses_of_getElem? ha, CompiledClause.status_insert htest hnot, ha,
      hout]
    rfl
  · exact ⟨seen, h.positions, rfl⟩

theorem run_append (t : MatchingTables) (predicates : PredicateTable) (evaluate : PredicateEvaluator)
    (turns rest : List (PredicateId × Nat)) (r : MatchRun) :
    run t predicates evaluate (turns ++ rest) r =
      run t predicates evaluate rest (run t predicates evaluate turns r) := by
  induction turns generalizing r with
  | nil => rfl
  | cons turn turns ih =>
    rw [List.cons_append, run, run]
    split
    · rename_i hz
      cases rest with
      | nil => rfl
      | cons turn' rest => rw [run, if_pos hz]
    · exact ih _

theorem after_succ (t : MatchingTables) (predicates : PredicateTable) (evaluate : PredicateEvaluator)
    (hturn : t.order[k]? = some id) :
    after t predicates evaluate (k + 1) =
      let r := after t predicates evaluate k
      if r.state.undetermined = 0 then r else r.visit t predicates evaluate k id := by
  have hturns : t.order.zipIdx.take (k + 1) = t.order.zipIdx.take k ++ [(id, k)] := by
    rw [List.take_add_one, List.getElem?_zipIdx, hturn, Nat.zero_add]
    rfl
  rw [after, hturns, run_append]
  rfl

theorem after_of_le (t : MatchingTables) (predicates : PredicateTable) (evaluate : PredicateEvaluator)
    (h : t.order.length ≤ k) : after t predicates evaluate k = t.run predicates evaluate := by
  rw [after, List.take_of_length_le (by rwa [List.length_zipIdx])]
  rfl

/-- Before the turn at `k` all turns before it are over, or nothing is left to determine. -/
theorem exists_isAsking_after (h : Closed documents predicates) (strategy : OrderStrategy)
    (evaluate : PredicateEvaluator) (k : Nat) :
    ∃ asked seen k', IsAsking documents strategy predicates evaluate asked seen k'
        (after (layout documents strategy) predicates evaluate k) ∧
      (k' = k ∨ (layout documents strategy).order.length ≤ k ∨
        (after (layout documents strategy) predicates evaluate k).state.undetermined = 0) := by
  induction k with
  | zero =>
    have hstart : after (layout documents strategy) predicates evaluate 0 =
        { state := .start (layout documents strategy) } := rfl
    rw [hstart]
    exact ⟨[], ∅, 0,
      ⟨positionsOf_nil, ⟨.start consistent_layout _, by simp, by simp, by simp⟩, .nil, by simp⟩,
      .inl rfl⟩
  | succ k ih =>
    obtain ⟨asked, seen, k', hasks, hk'⟩ := ih
    cases hturn : (layout documents strategy).order[k]? with
    | none =>
      have hle := List.getElem?_eq_none_iff.1 hturn
      rw [after_of_le _ _ _ hle] at hasks
      rw [after_of_le _ _ _ (Nat.le_succ_of_le hle)]
      exact ⟨asked, seen, k', hasks, .inr (.inl (Nat.le_succ_of_le hle))⟩
    | some id =>
      rw [after_succ _ _ _ hturn]
      dsimp only
      split
      · rename_i hz
        exact ⟨asked, seen, k', hasks, .inr (.inr hz)⟩
      · rename_i hz
        have hlt := (List.getElem?_eq_some_iff.1 hturn).1
        obtain rfl : k' = k := hk'.resolve_right fun h => h.elim (Nat.not_le_of_lt hlt) hz
        obtain ⟨asked', seen', hnext⟩ := hasks.visit h hturn
        exact ⟨asked', seen', k' + 1, hnext, .inl rfl⟩

end MatchRun

/-! ## Retrievals -/

namespace CanonicalIndex

/-- The bookkeeping of a retrieval agrees with what is known, at every moment. -/
structure IsBooked (index : CanonicalIndex) (evaluate : PredicateEvaluator) : Prop where
  /-- No position is out of range and no counter goes below zero. -/
  checked : index.retrieve? evaluate = some (index.retrieve evaluate)
  probes : (index.retrieve evaluate).probes = (index.tables.run index.predicates evaluate).probes
  /-- Before every turn the clauses have learned of the predicates that were evaluated, and within a turn
  those that are settled have learned of one more. -/
  kept : ∀ k, ∃ asked,
    List.Forall₂ (MatchRun.Answers index.predicates evaluate) asked
      (MatchRun.after index.tables index.predicates evaluate k).probes ∧
    (MatchRun.after index.tables index.predicates evaluate k).state.Keeps
      (index.documents.values.map (·.formula)) (index.predicates.outcomes evaluate) (fun _ => asked) ∧
    ∀ id e n, index.tables.order[k]? = some id → index.predicates.get? id = some e →
      (MatchRun.after index.tables index.predicates evaluate k).state.isRelevant index.tables k = true →
      (MatchRun.within index.tables k (evaluate e).toOption n
        (MatchRun.after index.tables index.predicates evaluate k).state).Keeps
        (index.documents.values.map (·.formula)) (index.predicates.outcomes evaluate)
        (MatchRun.learned index.tables (index.documents.values.map (·.formula)) asked id k n)
  /-- In the end nothing is undetermined. -/
  determined : ∀ state ∈ (index.tables.run index.predicates evaluate).state.documents,
    state = .matched ∨ state = .eliminated

variable {maxClauses : Nat} {strategy : OrderStrategy} {batches : List UpdateBatch}
  {index : CanonicalIndex} {known : Expression → Prop}

theorem IsCoherent.determined (h : index.IsCoherent known) (evaluate : PredicateEvaluator)
    {state : DocumentState} (hmem : state ∈ (index.tables.run index.predicates evaluate).state.documents) :
    state = .matched ∨ state = .eliminated := by
  obtain ⟨k, seen, hrun, hend⟩ := MatchingTables.exists_runsTo_layout index.strategy evaluate h.closed
  rw [← h.tables] at hrun hend
  obtain ⟨d, hd⟩ := List.getElem?_of_mem hmem
  have hlt : d < index.tables.documentNames.length :=
    hrun.represents.documents_length ▸ (List.getElem?_eq_some_iff.1 hd).1
  have hnot := hrun.determined (h.tables ▸ MatchingTables.consistent_layout) hend hlt
  rcases hrun.represents.documents_cases hlt with hs | hs | hs
  · exact absurd hs hnot
  · exact .inl (Option.some.inj (hd.symm.trans hs))
  · exact .inr (Option.some.inj (hd.symm.trans hs))

/-- Throughout a retrieval from a consistent index the bookkeeping agrees with what was evaluated, no
counter goes below zero and no position out of range, and in the end every document is determined. -/
theorem retrieve_bookkeeping (hindex : (empty maxClauses strategy).applyEach batches = .ok index)
    (hc : index.consistent = true) (evaluate : PredicateEvaluator) : index.IsBooked evaluate := by
  have hcoherent := isCoherent_of_applyEach hindex
  refine ⟨hcoherent.retrieve?_eq evaluate, by rw [hcoherent.retrieve_eq hc], fun k => ?_,
    fun _ => hcoherent.determined evaluate⟩
  obtain ⟨asked, seen, k', hasks, hk'⟩ := MatchRun.exists_isAsking_after hcoherent.closed index.strategy
    evaluate k
  rw [← formulas_map_snd, hcoherent.tables]
  refine ⟨asked, hasks.answered, hasks.keeps hcoherent.closed, fun id e n hturn he hrelevant => ?_⟩
  obtain rfl : k' = k := by
    refine hk'.resolve_right ?_
    rintro (hle | hz)
    · exact Nat.not_le_of_lt (List.getElem?_eq_some_iff.1 hturn).1 hle
    · exact hasks.runs.represents.counted.ne_zero_of_isRelevant hrelevant hz
  exact hasks.within_keeps hcoherent.closed hturn he n

theorem retrieve_bookkeeping_office :
    ∃ index, (empty 2 Office.order).applyEach Office.batches = .ok index ∧ index.consistent = true ∧
      index.IsBooked Office.answer := by
  have hindex : (empty 2 Office.order).applyEach Office.batches = .ok _ := rfl
  exact ⟨_, hindex, rfl, retrieve_bookkeeping hindex rfl Office.answer⟩

end CanonicalIndex
end PolicyDecision
