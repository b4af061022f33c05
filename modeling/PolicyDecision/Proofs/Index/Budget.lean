import PolicyDecision.Proofs.Index.History
import PolicyDecision.Proofs.Index.Retrieval

/-!
# PolicyDecision.Proofs.Index.Budget

Which predicates a retrieval evaluates.

The outcomes so far confirm a clause if all of its literals hold by them, and refute it if one does not.
A predicate is evaluated when its turn comes only if some formula needs it: no clause of the formula is
confirmed, and one that is not refuted references the predicate.

* `Formula.needs`: whether a formula needs a predicate, given those that were evaluated.
* `questions`: the predicates that are needed when their turn comes.
* `MatchingTables.isRelevant_layout_iff`: the bookkeeping of a run knows what is needed.
* `MatchRun.IsAsking`, `MatchRun.answers_run`: a run evaluates just the predicates that are needed.
* `CanonicalIndex.retrieve_economical`: so does a retrieval.
-/

namespace PolicyDecision

/-! ## What is known -/

/-- The predicate of the literal was evaluated, if there is one. -/
def Literal.isSettled (asked : List PredicateId) (l : Literal) : Bool :=
  l.predicate?.all fun id => asked.contains id

namespace Clause

/-- All literals are found to hold. -/
def isConfirmed (asked : List PredicateId) (o : Outcomes) (c : Clause) : Bool :=
  c.literals.all fun l => l.isSettled asked && l.truth? o == some true

/-- Some literal is found not to hold; a failed predicate satisfies no literal. -/
def isRefuted (asked : List PredicateId) (o : Outcomes) (c : Clause) : Bool :=
  c.literals.any fun l => l.isSettled asked && l.truth? o != some true

end Clause

namespace Formula

/-- No clause is confirmed, and not all of them are refuted. -/
def isOpen (asked : List PredicateId) (o : Outcomes) (f : Formula) : Bool :=
  !f.clauses.any (Clause.isConfirmed asked o) && f.clauses.any fun c => !c.isRefuted asked o

/-- No clause is confirmed, and one that is not refuted references the predicate. -/
def needs (asked : List PredicateId) (o : Outcomes) (id : PredicateId) (f : Formula) : Bool :=
  !f.clauses.any (Clause.isConfirmed asked o) &&
    f.clauses.any fun c => !c.isRefuted asked o && c.predicates.contains id

end Formula

/-- The predicates that some formula needs when their turn comes, after those in `asked`. -/
def questions (formulas : List Formula) (o : Outcomes) :
    List PredicateId → List PredicateId → List PredicateId
  | _, [] => []
  | asked, id :: turns =>
    if formulas.any (Formula.needs asked o id) then
      id :: questions formulas o (asked ++ [id]) turns
    else questions formulas o asked turns

variable {asked : List PredicateId} {o : Outcomes} {id : PredicateId}

theorem Literal.isSettled_iff {l : Literal} :
    l.isSettled asked = true ↔ ∀ id, l.predicate? = some id → id ∈ asked := by
  cases h : l.predicate? <;> simp [isSettled, h]

namespace Clause

variable {c : Clause}

theorem isRefuted_iff : c.isRefuted asked o = true ↔
    ∃ l ∈ c.literals, l.isSettled asked = true ∧ l.truth? o ≠ some true := by
  simp [isRefuted, OrderedSet.any_iff]

/-- A confirmed clause is one that is not refuted and has nothing left to ask. -/
theorem isConfirmed_iff : c.isConfirmed asked o = true ↔
    c.isRefuted asked o = false ∧ ∀ id ∈ c.predicates, id ∈ asked := by
  have hall : (∀ id ∈ c.predicates, id ∈ asked) ↔ ∀ l ∈ c.literals, l.isSettled asked = true := by
    simp only [Literal.isSettled_iff, predicates, List.mem_filterMap, ← OrderedSet.mem_def]
    constructor
    · exact fun h l hl id hid => h id ⟨l, hl, hid⟩
    · rintro h id ⟨l, hl, hid⟩
      exact h l hl id hid
  rw [hall, ← Bool.not_eq_true, isRefuted_iff]
  simp only [isConfirmed, OrderedSet.all_iff, Bool.and_eq_true, beq_iff_eq, not_exists, not_and,
    not_not]
  exact ⟨fun h => ⟨fun l hl _ => (h l hl).2, fun l hl => (h l hl).1⟩,
    fun h l hl => ⟨h.2 l hl, h.1 l hl (h.2 l hl)⟩⟩

/-- The false clause is refuted from the start. -/
theorem isFalse_eq_false (h : c.isRefuted asked o = false) : c.isFalse = false := by
  refine Bool.eq_false_iff.2 fun hf => ?_
  rw [eq_of_isFalse hf] at h
  cases h

end Clause

namespace Formula

variable {f : Formula}

theorem isOpen_iff : f.isOpen asked o = true ↔
    (∀ c ∈ f.clauses, c.isConfirmed asked o = false) ∧
      ∃ c ∈ f.clauses, c.isRefuted asked o = false := by
  simp [isOpen, OrderedSet.any_iff, ← Bool.not_eq_true]

theorem needs_iff : f.needs asked o id = true ↔
    (∀ c ∈ f.clauses, c.isConfirmed asked o = false) ∧
      ∃ c ∈ f.clauses, c.isRefuted asked o = false ∧ id ∈ c.predicates := by
  simp [needs, OrderedSet.any_iff, ← Bool.not_eq_true]

theorem isOpen_of_needs (h : f.needs asked o id = true) : f.isOpen asked o = true := by
  obtain ⟨hnone, c, hc, href, -⟩ := needs_iff.1 h
  exact isOpen_iff.2 ⟨hnone, c, hc, href⟩

end Formula

section

variable {formulas : List Formula} {turns before after : List PredicateId}

theorem questions_sublist (asked turns : List PredicateId) :
    (questions formulas o asked turns).Sublist turns := by
  induction turns generalizing asked with
  | nil => exact .slnil
  | cons id turns ih =>
    rw [questions]
    split
    · exact (ih _).cons_cons id
    · exact (ih _).cons id

/-- Each question is needed after those before it. -/
theorem needs_of_questions (h : questions formulas o asked turns = before ++ id :: after) :
    ∃ f ∈ formulas, f.needs (asked ++ before) o id = true := by
  induction turns generalizing asked before with
  | nil => simp [questions] at h
  | cons i turns ih =>
    rw [questions] at h
    split at h
    · rename_i hneeds
      cases before with
      | nil =>
        obtain ⟨rfl, -⟩ := List.cons.inj h
        rw [List.append_nil]
        exact List.any_eq_true.1 hneeds
      | cons b before =>
        obtain ⟨rfl, hrest⟩ := List.cons.inj h
        rw [List.append_cons]
        exact ih hrest
    · exact ih h

/-- Where no formula is open nothing is asked. -/
theorem questions_eq_nil (h : ∀ f ∈ formulas, f.isOpen asked o = false) :
    questions formulas o asked turns = [] := by
  induction turns with
  | nil => rfl
  | cons id turns ih =>
    have hnone : ¬ formulas.any (Formula.needs asked o id) = true := fun hany => by
      obtain ⟨f, hf, hneeds⟩ := List.any_eq_true.1 hany
      have hopen := Formula.isOpen_of_needs hneeds
      rw [h f hf] at hopen
      cases hopen
    rw [questions, if_neg hnone, ih]

end

/-! ## What the bookkeeping knows -/

namespace MatchingTables

/-- The positions of some predicates. -/
def PositionsOf (order : List PredicateId) (asked : List PredicateId) (seen : Finset Nat) : Prop :=
  ∀ p id, order[p]? = some id → (p ∈ seen ↔ id ∈ asked)

theorem positionsOf_nil {order : List PredicateId} : PositionsOf order [] ∅ := by
  simp [PositionsOf]

theorem PositionsOf.insert {order : List PredicateId} {seen : Finset Nat} {k : Nat}
    (h : PositionsOf order asked seen) (hn : order.Nodup) (hk : order[k]? = some id) :
    PositionsOf order (asked ++ [id]) (insert k seen) := by
  intro p i hp
  rw [Finset.mem_insert, List.mem_append, List.mem_singleton, h p i hp, or_comm]
  refine or_congr_right ⟨?_, ?_⟩
  · rintro rfl
    exact Option.some.inj (hp.symm.trans hk)
  · rintro rfl
    have hlt := (List.getElem?_eq_some_iff.1 hp).1
    exact (List.getElem?_inj hlt hn).1 (hp.trans hk.symm)

section

variable {order : List PredicateId} {seen : Finset Nat} {c : Clause} {docs : List Nat}

theorem violates_compileClause_iff (hn : order.Nodup) (hr : c.IsReduced) (hf : c.isFalse = false)
    (hin : ∀ id ∈ c.predicates, id ∈ order) (hseen : PositionsOf order asked seen) :
    (compileClause order c docs).Violates (outcomesAt order o) seen ↔
      c.isRefuted asked o = true := by
  rw [Clause.isRefuted_iff]
  constructor
  · rintro ⟨p, hp, htest, hout⟩
    obtain ⟨id, hid, hturn⟩ := (test_compileClause_mask hn).1 htest
    obtain ⟨negated, hl⟩ := Clause.mem_predicates.1 hid
    refine ⟨_, hl, Literal.isSettled_iff.2 ?_, fun htruth => hout ?_⟩
    · rintro _ ⟨⟩
      exact (hseen p id hturn).1 hp
    · exact (outcomesAt_eq_polarity_iff hn hr hl hturn).2 htruth
  · rintro ⟨l, hl, hsettled, htruth⟩
    cases l with
    | constant b =>
      cases b with
      | true => exact absurd rfl htruth
      | false =>
        rw [hr.isFalse_of_mem hl] at hf
        cases hf
    | predicate id negated =>
      have hid := Clause.mem_predicates.2 ⟨negated, hl⟩
      obtain ⟨p, hp⟩ := List.getElem?_of_mem (hin id hid)
      exact ⟨p, (hseen p id hp).2 (Literal.isSettled_iff.1 hsettled id rfl),
        (test_compileClause_mask hn).2 ⟨id, hid, hp⟩,
        fun hout => htruth ((outcomesAt_eq_polarity_iff hn hr hl hp).1 hout)⟩

theorem openPositions_compileClause_eq_empty (hn : order.Nodup)
    (hin : ∀ id ∈ c.predicates, id ∈ order) (hseen : PositionsOf order asked seen) :
    (compileClause order c docs).openPositions seen = ∅ ↔ ∀ id ∈ c.predicates, id ∈ asked := by
  simp only [Finset.eq_empty_iff_forall_notMem, CompiledClause.mem_openPositions,
    test_compileClause_mask hn, not_and, not_not]
  constructor
  · intro h id hid
    obtain ⟨p, hp⟩ := List.getElem?_of_mem (hin id hid)
    exact (hseen p id hp).1 (h p ⟨id, hid, hp⟩)
  · rintro h p ⟨id, hid, hp⟩
    exact (hseen p id hp).2 (h id hid)

/-- The status of a compiled clause says whether the clause is confirmed or refuted. -/
theorem status_compileClause (hn : order.Nodup) (hr : c.IsReduced) (hf : c.isFalse = false)
    (hin : ∀ id ∈ c.predicates, id ∈ order) (hseen : PositionsOf order asked seen) :
    ((compileClause order c docs).status (outcomesAt order o) seen = .satisfied ↔
      c.isConfirmed asked o = true) ∧
    ((compileClause order c docs).status (outcomesAt order o) seen = .eliminated ↔
      c.isRefuted asked o = true) := by
  rw [CompiledClause.status_eq_satisfied, CompiledClause.status_eq_eliminated,
    violates_compileClause_iff hn hr hf hin hseen,
    openPositions_compileClause_eq_empty hn hin hseen, Clause.isConfirmed_iff, Bool.not_eq_true]
  exact ⟨Iff.rfl, Iff.rfl⟩

end

section

variable {documents : List (String × Formula)} {strategy : OrderStrategy}
  {predicates : PredicateTable} {evaluate : PredicateEvaluator} {seen : Finset Nat}
  {s : MatchState} {d j k : Nat} {name : String} {f : Formula} {c : Clause}

/-- The statuses of the clauses, by what is known of them. -/
theorem statuses_layout (h : Closed documents predicates)
    (hseen : PositionsOf (layout documents strategy).order asked seen)
    (hc : (clausesOf (documents.map (·.2)))[j]? = some c) :
    ((layout documents strategy).statuses (outcomesAt (layout documents strategy).order o) seen j =
        .satisfied ↔ c.isConfirmed asked o = true) ∧
      ((layout documents strategy).statuses (outcomesAt (layout documents strategy).order o) seen j =
        .eliminated ↔ c.isRefuted asked o = true) := by
  obtain ⟨f, hf, hsat⟩ := mem_clausesOf.1 (List.mem_of_getElem? hc)
  obtain ⟨d, hd, rfl⟩ := List.mem_map.1 hf
  obtain ⟨hmem, hfalse⟩ := mem_satisfiable.1 hsat
  rw [statuses_of_getElem? (getElem?_layout_clauses.2 ⟨c, hc, rfl⟩)]
  exact status_compileClause (layout_order_nodup documents strategy) (h.reduced d hd c hmem) hfalse
    (fun id hid => mem_layout_order_iff.2 ⟨d, hd, c, hsat, hid⟩) hseen

variable (strategy) in
theorem exists_has_of_mem (hd : documents[d]? = some (name, f)) (hc : c ∈ satisfiable f) :
    ∃ j, (clausesOf (documents.map (·.2)))[j]? = some c ∧ (layout documents strategy).Has j d := by
  have hmem : c ∈ clausesOf (documents.map (·.2)) :=
    mem_clausesOf.2 ⟨f, List.mem_map_of_mem (f := Prod.snd) (List.mem_of_getElem? hd), hc⟩
  obtain ⟨j, hj⟩ := List.getElem?_of_mem hmem
  exact ⟨j, hj, has_layout_iff.2 ⟨c, f, hj, by rw [hd]; rfl, hc⟩⟩

theorem exists_mem_of_has (hd : documents[d]? = some (name, f))
    (hj : (layout documents strategy).Has j d) :
    ∃ c ∈ satisfiable f, (clausesOf (documents.map (·.2)))[j]? = some c := by
  obtain ⟨c, g, hc, hg, hsat⟩ := has_layout_iff.1 hj
  rw [hd] at hg
  obtain rfl := Option.some.inj hg
  exact ⟨c, hsat, hc⟩

/-- A document has a satisfied clause where a clause of its formula is confirmed. -/
theorem exists_satisfied_layout_iff (h : Closed documents predicates)
    (hseen : PositionsOf (layout documents strategy).order asked seen)
    (hd : documents[d]? = some (name, f)) :
    (∃ j, (layout documents strategy).Has j d ∧ (layout documents strategy).statuses
        (outcomesAt (layout documents strategy).order o) seen j = .satisfied) ↔
      ∃ c ∈ f.clauses, c.isConfirmed asked o = true := by
  constructor
  · rintro ⟨j, hj, hst⟩
    obtain ⟨c, hc, hget⟩ := exists_mem_of_has hd hj
    exact ⟨c, (mem_satisfiable.1 hc).1, (statuses_layout h hseen hget).1.1 hst⟩
  · rintro ⟨c, hc, hconf⟩
    have hfalse := Clause.isFalse_eq_false (Clause.isConfirmed_iff.1 hconf).1
    obtain ⟨j, hget, hj⟩ := exists_has_of_mem strategy hd (mem_satisfiable.2 ⟨hc, hfalse⟩)
    exact ⟨j, hj, (statuses_layout h hseen hget).1.2 hconf⟩

/-- A document is undetermined where its formula is open. -/
theorem undetermined_layout_iff (h : Closed documents predicates)
    (hseen : PositionsOf (layout documents strategy).order asked seen)
    (hs : Represents (layout documents strategy) ((layout documents strategy).statuses
      (outcomesAt (layout documents strategy).order o) seen) s)
    (hd : documents[d]? = some (name, f)) :
    s.documents[d]? = some .undetermined ↔ f.isOpen asked o = true := by
  have hlt : d < (layout documents strategy).documentNames.length := by
    rw [layout_documentNames, List.length_map]
    exact (List.getElem?_eq_some_iff.1 hd).1
  have hconfirmed := exists_satisfied_layout_iff (o := o) h hseen hd
  rw [hs.undetermined_iff hlt, Formula.isOpen_iff]
  refine and_congr ?_ ⟨?_, ?_⟩
  · simpa using not_congr hconfirmed
  · rintro ⟨j, hj, hst⟩
    obtain ⟨c, hc, hget⟩ := exists_mem_of_has hd hj
    exact ⟨c, (mem_satisfiable.1 hc).1,
      Bool.eq_false_iff.2 fun href => hst ((statuses_layout h hseen hget).2.2 href)⟩
  · rintro ⟨c, hc, href⟩
    obtain ⟨j, hget, hj⟩ := exists_has_of_mem strategy hd
      (mem_satisfiable.2 ⟨hc, Clause.isFalse_eq_false href⟩)
    refine ⟨j, hj, fun hst => ?_⟩
    rw [(statuses_layout h hseen hget).2.1 hst] at href
    cases href

/-- A predicate is irrelevant where no formula needs it. -/
theorem irrelevant_layout_iff (h : Closed documents predicates)
    (hseen : PositionsOf (layout documents strategy).order asked seen)
    (hk : (layout documents strategy).order[k]? = some id) :
    (layout documents strategy).Irrelevant ((layout documents strategy).statuses
        (outcomesAt (layout documents strategy).order o) seen) k ↔
      ∀ d ∈ documents, d.2.needs asked o id = false := by
  have hn := layout_order_nodup documents strategy
  constructor
  · rintro hirr ⟨name, f⟩ hd
    refine Bool.eq_false_iff.2 fun hneeds => ?_
    obtain ⟨hnone, c, hc, href, hid⟩ := Formula.needs_iff.1 hneeds
    obtain ⟨p, hp⟩ := List.getElem?_of_mem hd
    obtain ⟨j, hget, hj⟩ := exists_has_of_mem strategy hp
      (mem_satisfiable.2 ⟨hc, Clause.isFalse_eq_false href⟩)
    obtain ⟨a, ha, hpa⟩ := hj
    obtain ⟨b, hb, rfl⟩ := getElem?_layout_clauses.1 ha
    obtain rfl : c = b := Option.some.inj (hget.symm.trans hb)
    have hlive : ∃ n, (layout documents strategy).statuses
        (outcomesAt (layout documents strategy).order o) seen j = .live n := by
      have hst := statuses_layout (o := o) h hseen hget
      rw [hnone c hc, href] at hst
      exact ClauseStatus.exists_live (fun hs => nomatch hst.1.1 hs) (fun he => nomatch hst.2.1 he)
    obtain ⟨i, hi, hsat⟩ := hirr j _ ha ((test_compileClause_mask hn).2 ⟨id, hid, hk⟩) hlive p hpa
    obtain ⟨b, hb, hconf⟩ := (exists_satisfied_layout_iff h hseen hp).1 ⟨i, hi, hsat⟩
    rw [hnone b hb] at hconf
    cases hconf
  · rintro hnone j a ha htest ⟨n, hn'⟩ d hd
    obtain ⟨c, hget, rfl⟩ := getElem?_layout_clauses.1 ha
    obtain ⟨i, hi, hp⟩ := (test_compileClause_mask hn).1 htest
    obtain rfl : i = id := Option.some.inj (hp.symm.trans hk)
    obtain ⟨f, hf, hsat⟩ := mem_documentsOf.1 hd
    rw [List.getElem?_map] at hf
    obtain ⟨⟨name, g⟩, hdoc, rfl⟩ := Option.map_eq_some_iff.1 hf
    refine (exists_satisfied_layout_iff h hseen hdoc).2 ?_
    by_contra hno
    have hneeds : Formula.needs asked o i g = true := Formula.needs_iff.2
      ⟨fun b hb => Bool.eq_false_iff.2 fun hconf => hno ⟨b, hb, hconf⟩, c,
        (mem_satisfiable.1 hsat).1, Bool.eq_false_iff.2 fun href => ?_, hi⟩
    · rw [hnone _ (List.mem_of_getElem? hdoc)] at hneeds
      cases hneeds
    · rw [(statuses_layout h hseen hget).2.2 href] at hn'
      cases hn'

/-- The bookkeeping knows what is needed. -/
theorem isRelevant_layout_iff (h : Closed documents predicates)
    (hseen : PositionsOf (layout documents strategy).order asked seen)
    (hs : Represents (layout documents strategy) ((layout documents strategy).statuses
      (outcomesAt (layout documents strategy).order o) seen) s)
    (hk : (layout documents strategy).order[k]? = some id) :
    s.isRelevant (layout documents strategy) k = true ↔
      (documents.map (·.2)).any (Formula.needs asked o id) = true := by
  have hlt := (List.getElem?_eq_some_iff.1 hk).1
  rw [← not_iff_not, Bool.not_eq_true, Bool.not_eq_true, hs.isRelevant_iff consistent_layout hlt,
    irrelevant_layout_iff h hseen hk, List.any_map]
  simp

/-- At the end of a run no formula is open. -/
theorem isOpen_eq_false_of_undetermined (h : Closed documents predicates)
    (hseen : PositionsOf (layout documents strategy).order asked seen)
    (hs : Represents (layout documents strategy) ((layout documents strategy).statuses
      (outcomesAt (layout documents strategy).order o) seen) s)
    (hz : s.undetermined = 0) : ∀ f ∈ documents.map (·.2), f.isOpen asked o = false := by
  intro f hf
  obtain ⟨⟨name, f⟩, hd, rfl⟩ := List.mem_map.1 hf
  obtain ⟨d, hd⟩ := List.getElem?_of_mem hd
  refine Bool.eq_false_iff.2 fun hopen => ?_
  have hund := (undetermined_layout_iff h hseen hs hd).2 hopen
  have hcount := hs.counted
  rw [MatchState.IsCounted, hz] at hcount
  exact List.count_eq_zero.1 hcount.symm (List.mem_of_getElem? hund)

end

end MatchingTables

/-! ## The run -/

namespace MatchRun

open MatchingTables

/-- A probe is the evaluation of the predicate of a number. -/
def Answers (predicates : PredicateTable) (evaluate : PredicateEvaluator) (id : PredicateId)
    (q : Probe) : Prop :=
  predicates.get? id = some q.predicate ∧ q.outcome = evaluate q.predicate

variable {documents : List (String × Formula)} {strategy : OrderStrategy}
  {predicates : PredicateTable} {evaluate : PredicateEvaluator} {seen : Finset Nat} {k : Nat}
  {r : MatchRun}

/-- After the turns below `k` just the predicates in `asked` were evaluated, and they are the first
ones of those that are needed in their turn. -/
structure IsAsking (documents : List (String × Formula)) (strategy : OrderStrategy)
    (predicates : PredicateTable) (evaluate : PredicateEvaluator) (asked : List PredicateId)
    (seen : Finset Nat) (k : Nat) (r : MatchRun) : Prop where
  positions : PositionsOf (layout documents strategy).order asked seen
  runs : RunsTo (layout documents strategy) predicates evaluate
    (outcomesAt (layout documents strategy).order (predicates.outcomes evaluate)) k seen r
  answered : List.Forall₂ (Answers predicates evaluate) asked r.probes
  questions : questions (documents.map (·.2)) (predicates.outcomes evaluate) []
      (layout documents strategy).order =
    asked ++ PolicyDecision.questions (documents.map (·.2)) (predicates.outcomes evaluate) asked
      ((layout documents strategy).order.drop k)

theorem IsAsking.visit (h : IsAsking documents strategy predicates evaluate asked seen k r)
    (hclosed : Closed documents predicates)
    (hturn : (layout documents strategy).order[k]? = some id) :
    ∃ asked' seen', IsAsking documents strategy predicates evaluate asked' seen' (k + 1)
      (r.visit (layout documents strategy) predicates evaluate k id) := by
  obtain ⟨hk, hid⟩ := List.getElem?_eq_some_iff.1 hturn
  obtain ⟨e, he, ho⟩ : ∃ e, predicates.get? id = some e ∧
      outcomesAt (layout documents strategy).order (predicates.outcomes evaluate) k =
        (evaluate e).toOption := hclosed.turns k id hturn
  have hrelevant := isRelevant_layout_iff hclosed h.positions h.runs.represents hturn
  have hquestions := h.questions
  rw [List.drop_eq_getElem_cons hk, hid, PolicyDecision.questions] at hquestions
  split at hquestions
  · rename_i hneeds
    rw [visit_of_relevant (hrelevant.2 hneeds) he]
    refine ⟨asked ++ [id], insert k seen,
      h.positions.insert (layout_order_nodup documents strategy) hturn,
      h.runs.ask consistent_layout hturn he ho, ?_, ?_⟩
    · exact List.rel_append h.answered (.cons ⟨he, rfl⟩ .nil)
    · rw [hquestions, List.append_cons]
  · rename_i hneeds
    have hirrelevant := Bool.eq_false_iff.2 fun hrel => hneeds (hrelevant.1 hrel)
    rw [visit_of_irrelevant hirrelevant]
    exact ⟨asked, seen, h.positions, h.runs.pass consistent_layout hk hirrelevant, h.answered,
      hquestions⟩

/-- A run evaluates the predicates that are needed in their turn. -/
theorem answers_run (h : Closed documents predicates) (strategy : OrderStrategy)
    (evaluate : PredicateEvaluator) :
    List.Forall₂ (Answers predicates evaluate)
      (questions (documents.map (·.2)) (predicates.outcomes evaluate) []
        (layout documents strategy).order)
      ((layout documents strategy).run predicates evaluate).probes := by
  have hstart : ∃ asked seen, IsAsking documents strategy predicates evaluate asked seen 0
      { state := .start (layout documents strategy) } :=
    ⟨[], ∅, positionsOf_nil, ⟨.start consistent_layout _, by simp, by simp, by simp⟩, .nil, by simp⟩
  have hstep (k : Nat) (id : PredicateId) (r : MatchRun)
      (hid : (layout documents strategy).order[k]? = some id)
      (hasks : ∃ asked seen, IsAsking documents strategy predicates evaluate asked seen k r) :
      ∃ asked seen, IsAsking documents strategy predicates evaluate asked seen (k + 1)
        (r.visit (layout documents strategy) predicates evaluate k id) := by
    obtain ⟨asked, seen, hasks⟩ := hasks
    exact hasks.visit h hid
  obtain ⟨k, ⟨asked, seen, hasks⟩, hend⟩ := run_induction
    (motive := fun k r => ∃ asked seen,
      IsAsking documents strategy predicates evaluate asked seen k r)
    hstep (List.drop_zero (l := (layout documents strategy).order)) hstart
  have hnone : questions (documents.map (·.2)) (predicates.outcomes evaluate) asked
      ((layout documents strategy).order.drop k) = [] := by
    rcases hend with hk | hz
    · rw [List.drop_eq_nil_of_le hk, questions]
    · exact questions_eq_nil
        (isOpen_eq_false_of_undetermined h hasks.positions hasks.runs.represents hz)
  rw [hasks.questions, hnone, List.append_nil]
  exact hasks.answered

/-- Different numbers stand for different predicates. -/
theorem nodup_signatures (hd : predicates.IsDistinct) {probes : List Probe}
    (h : List.Forall₂ (Answers predicates evaluate) asked probes) (hn : asked.Nodup) :
    (probes.map fun q => q.predicate.signature).Nodup := by
  induction h with
  | nil => exact List.nodup_nil
  | @cons id q asked probes hq hrest ih =>
    obtain ⟨hid, hn⟩ := List.nodup_cons.1 hn
    refine List.nodup_cons.2 ⟨fun hmem => hid ?_, ih hn⟩
    obtain ⟨q', hq', hsig⟩ := List.mem_map.1 hmem
    obtain ⟨i, hi, rfl⟩ := List.getElem_of_mem hq'
    have hlt : i < asked.length := hrest.length_eq ▸ hi
    have hanswer := hrest.get hlt hi
    rw [← hd.eq_of_signature hanswer.1 hq.1 hsig]
    exact List.getElem_mem hlt

end MatchRun

/-! ## Retrievals -/

namespace CanonicalIndex

/-- The predicates that a retrieval has to evaluate. -/
def questions (index : CanonicalIndex) (evaluate : PredicateEvaluator) : List PredicateId :=
  PolicyDecision.questions (index.documents.values.map (·.formula))
    (index.predicates.outcomes evaluate) [] index.tables.order

/-- Evaluations that waste nothing. -/
structure IsEconomical (index : CanonicalIndex) (evaluate : PredicateEvaluator)
    (asked : List PredicateId) (probes : List Probe) : Prop where
  /-- Predicates are evaluated in the order of their turns, each once. -/
  ordered : asked.Sublist index.tables.order
  once : asked.Nodup
  answered : List.Forall₂ (MatchRun.Answers index.predicates evaluate) asked probes
  distinct : (probes.map fun q => q.predicate.signature).Nodup
  /-- Each of them is needed after those before it. -/
  needed : ∀ before id after, asked = before ++ id :: after →
    ∃ d ∈ index.documents.values,
      d.formula.needs before (index.predicates.outcomes evaluate) id = true
  /-- None is evaluated once no formula is open. -/
  stopped : ∀ before after, asked = before ++ after →
    (∀ d ∈ index.documents.values,
      d.formula.isOpen before (index.predicates.outcomes evaluate) = false) → after = []

variable {maxClauses : Nat} {strategy : OrderStrategy} {batches : List UpdateBatch}
  {index : CanonicalIndex} {known : Expression → Prop}

theorem IsCoherent.answers_questions (h : index.IsCoherent known) (evaluate : PredicateEvaluator) :
    List.Forall₂ (MatchRun.Answers index.predicates evaluate) (index.questions evaluate)
      (index.tables.run index.predicates evaluate).probes := by
  rw [questions, ← formulas_map_snd, h.tables]
  exact MatchRun.answers_run h.closed index.strategy evaluate

/-- A retrieval evaluates the predicates that are needed when their turn comes and no others. From an
inconsistent index it evaluates none. -/
theorem retrieve_economical (hindex : (empty maxClauses strategy).applyEach batches = .ok index)
    (evaluate : PredicateEvaluator) :
    (index.consistent = false → (index.retrieve evaluate).probes = []) ∧
    (index.consistent = true →
      index.IsEconomical evaluate (index.questions evaluate) (index.retrieve evaluate).probes) := by
  refine ⟨fun hc => by simp [retrieve, hc, Retrieval.inconsistent], fun hc => ?_⟩
  have hcoherent := isCoherent_of_applyEach hindex
  have hdistinct : index.predicates.IsDistinct :=
    (isTracked_of_applyEach hindex).publications.distinct
  have hanswers := hcoherent.answers_questions evaluate
  rw [hcoherent.retrieve_eq hc]
  have hordered : (index.questions evaluate).Sublist index.tables.order :=
    questions_sublist [] index.tables.order
  have honce : (index.questions evaluate).Nodup := by
    rw [hcoherent.tables] at hordered
    exact (MatchingTables.layout_order_nodup _ _).sublist hordered
  have hneeded (before : List PredicateId) (id : PredicateId) (after : List PredicateId)
      (he : index.questions evaluate = before ++ id :: after) :
      ∃ d ∈ index.documents.values,
        d.formula.needs before (index.predicates.outcomes evaluate) id = true := by
    obtain ⟨f, hf, hneeds⟩ := needs_of_questions he
    obtain ⟨d, hd, rfl⟩ := List.mem_map.1 hf
    exact ⟨d, hd, hneeds⟩
  refine ⟨hordered, honce, hanswers, MatchRun.nodup_signatures hdistinct hanswers honce,
    hneeded, ?_⟩
  intro before after he hclosed
  cases after with
  | nil => rfl
  | cons id after =>
    obtain ⟨d, hd, hneeds⟩ := hneeded before id after he
    have hopen := Formula.isOpen_of_needs hneeds
    rw [hclosed d hd] at hopen
    cases hopen

/-- Without an alarm and without staff every document is settled, so the last predicate is not asked. -/
theorem retrieve_economical_office :
    ∃ index, (empty 2 Office.order).applyEach Office.batches = .ok index ∧ index.consistent = true ∧
      index.tables.order = [1, 0, 2] ∧
      index.IsEconomical Office.answer [1, 0] (index.retrieve Office.answer).probes := by
  have hindex : (empty 2 Office.order).applyEach Office.batches = .ok _ := rfl
  exact ⟨_, hindex, rfl, rfl, (retrieve_economical hindex Office.answer).2 rfl⟩

end CanonicalIndex
end PolicyDecision
