import PolicyDecision.Proofs.Index.Layout
import PolicyDecision.Proofs.Index.MatchRun

/-!
# PolicyDecision.Proofs.Index.Tables

The tables of documents, whatever order a strategy proposes.

* `checkedOrder_eq`: what is taken from a proposal, and what is added to it.
* `mem_checkedOrder`, `checkedOrder_nodup`: exactly the referenced predicates have a turn, each once.
* `MatchingTables.mem_layout_clauses`: every clause of a formula is compiled once, with all of its
  documents.
* `MatchingTables.consistent_layout`: the tables fit together.
* `MatchingTables.holds_compileClause_iff`: the bits of a clause say what its literals say.
* `MatchingTables.matched_layout_iff`: a run matches the documents whose formulas are satisfied.
-/

namespace PolicyDecision

/-! ## The order -/

/-- The induction is on the rest of the proposal: a predicate that gets a turn is passed over from
there on. -/
theorem Placement.foldl_add (referenced : OrderedSet PredicateId) {p : Placement}
    (hp : ∀ id, id ∈ p.placed ↔ id ∈ p.order) (proposal : List PredicateId) :
    (proposal.foldl (add referenced) p).order = p.order ++ (proposal.filter fun id =>
      referenced.contains id && !p.placed.contains id).eraseDups ∧
      ∀ id, id ∈ (proposal.foldl (add referenced) p).placed ↔
        id ∈ (proposal.foldl (add referenced) p).order := by
  induction proposal generalizing p with
  | nil => exact ⟨(List.append_nil _).symm, hp⟩
  | cons a rest ih =>
    rw [List.foldl_cons, add, List.filter_cons]
    split
    · have hinsert (id : PredicateId) : id ∈ p.placed.insert a ↔ id ∈ p.order ++ [a] := by
        rw [OrderedSet.mem_insert, hp, List.mem_append, List.mem_singleton, or_comm]
      obtain ⟨horder, hplaced⟩ := ih (p := ⟨p.order ++ [a], p.placed.insert a⟩) hinsert
      refine ⟨?_, hplaced⟩
      rw [horder, List.eraseDups_cons, List.filter_filter, List.append_assoc,
        List.singleton_append]
      congr 4
      funext id
      rw [Bool.eq_iff_iff]
      simp only [Bool.and_eq_true, Bool.not_eq_true', ← Bool.not_eq_true, beq_iff_eq,
        OrderedSet.contains_iff, OrderedSet.mem_insert, not_or]
      tauto
    · exact ih hp

/-- The referenced predicates of a proposal, each at its first occurrence. -/
def taken (proposal referenced : List PredicateId) : List PredicateId :=
  (proposal.filter (referenced.contains ·)).eraseDups

theorem mem_taken {proposal referenced : List PredicateId} {id : PredicateId} :
    id ∈ taken proposal referenced ↔ id ∈ proposal ∧ id ∈ referenced := by
  rw [taken, List.mem_eraseDups, List.mem_filter, List.contains_iff_mem]

theorem Placement.foldl_add_empty (proposal referenced : List PredicateId) :
    (proposal.foldl (add (.ofList referenced)) {}).order = taken proposal referenced ∧
      ∀ id, id ∈ (proposal.foldl (add (.ofList referenced)) {}).placed ↔
        id ∈ taken proposal referenced := by
  obtain ⟨horder, hplaced⟩ := foldl_add (.ofList referenced) (p := {}) (fun _ => Iff.rfl) proposal
  have hfilter : (proposal.filter fun id => (OrderedSet.ofList referenced).contains id &&
      !OrderedSet.empty.contains id) = proposal.filter (referenced.contains ·) := by
    refine List.filter_congr fun id _ => ?_
    rw [Bool.eq_iff_iff]
    simp only [Bool.and_eq_true, Bool.not_eq_true', ← Bool.not_eq_true, OrderedSet.contains_iff,
      OrderedSet.mem_ofList, List.contains_iff_mem]
    exact and_iff_left List.not_mem_nil
  rw [hfilter, List.nil_append] at horder
  exact ⟨horder, fun id => by rw [hplaced, horder, taken]⟩

/-- An order as long as the set of the referenced predicates leaves none of them out. -/
theorem filter_taken_eq_nil {proposal referenced : List PredicateId}
    (h : (OrderedSet.ofList referenced).size ≤ (taken proposal referenced).length) :
    (OrderedSet.ofList referenced).items.filter
      (fun id => !(taken proposal referenced).contains id) = [] := by
  have hsub : taken proposal referenced ⊆ (OrderedSet.ofList referenced).items := fun id hid =>
    OrderedSet.mem_ofList.2 (mem_taken.1 hid).2
  have hperm : (taken proposal referenced).Perm (OrderedSet.ofList referenced).items :=
    (List.subperm_of_subset (nodup_eraseDups _) hsub).perm_of_length_le h
  refine List.filter_eq_nil_iff.2 fun id hid => ?_
  rw [List.contains_iff_mem.2 (hperm.mem_iff.2 hid)]
  exact Bool.false_ne_true

/-- What is taken from a proposal, and then the others in ascending order. -/
theorem checkedOrder_eq (strategy : OrderStrategy) (references : ReferenceCounts) :
    checkedOrder strategy references =
      taken (strategy references) (references.map (·.1)) ++
        (OrderedSet.ofList (references.map (·.1))).items.filter fun id =>
          !(taken (strategy references) (references.map (·.1))).contains id := by
  obtain ⟨horder, hplaced⟩ :=
    Placement.foldl_add_empty (strategy references) (references.map (·.1))
  have hmissing : ((OrderedSet.ofList (references.map (·.1))).difference
      ((strategy references).foldl (Placement.add (.ofList (references.map (·.1)))) {}).placed).items =
      (OrderedSet.ofList (references.map (·.1))).items.filter fun id =>
        !(taken (strategy references) (references.map (·.1))).contains id := by
    refine List.filter_congr fun id _ => ?_
    rw [Bool.eq_iff_iff]
    simp only [Bool.not_eq_true', ← Bool.not_eq_true, OrderedSet.contains_iff, hplaced,
      List.contains_iff_mem]
  rw [checkedOrder, hmissing, horder]
  split
  · rfl
  · rename_i hfull
    rw [filter_taken_eq_nil (Nat.le_of_not_lt hfull), List.append_nil]

theorem mem_checkedOrder {strategy : OrderStrategy} {references : ReferenceCounts}
    {id : PredicateId} :
    id ∈ checkedOrder strategy references ↔ id ∈ references.map (·.1) := by
  simp only [checkedOrder_eq, List.mem_append, mem_taken, List.mem_filter, List.contains_iff_mem,
    Bool.not_eq_true', ← Bool.not_eq_true, ← OrderedSet.mem_def, OrderedSet.mem_ofList]
  constructor
  · rintro (h | h)
    · exact h.2
    · exact h.1
  · intro h
    by_cases hs : id ∈ strategy references
    · exact .inl ⟨hs, h⟩
    · exact .inr ⟨h, fun hp => hs hp.1⟩

theorem checkedOrder_nodup (strategy : OrderStrategy) (references : ReferenceCounts) :
    (checkedOrder strategy references).Nodup := by
  rw [checkedOrder_eq]
  refine List.nodup_append'.2 ⟨nodup_eraseDups _, (OrderedSet.nodup _).filter _, ?_⟩
  intro id hplaced hleft
  have hnot := (List.mem_filter.1 hleft).2
  rw [Bool.not_eq_true', ← Bool.not_eq_true, List.contains_iff_mem] at hnot
  exact hnot hplaced

namespace MatchingTables

/-! ## Clauses and their documents -/

variable {formulas : List Formula} {c : Clause} {d : Nat}

theorem mem_satisfiable {f : Formula} : c ∈ satisfiable f ↔ c ∈ f.clauses ∧ c.isFalse = false := by
  simp [satisfiable, OrderedSet.mem_def]

theorem satisfiable_nodup (f : Formula) : (satisfiable f).Nodup := f.clauses.nodup.filter _

theorem mem_occurrences :
    (c, d) ∈ occurrences formulas ↔ ∃ f, formulas[d]? = some f ∧ c ∈ satisfiable f := by
  simp only [occurrences, List.mem_flatMap, List.mem_map, Prod.mk.injEq]
  constructor
  · rintro ⟨⟨f, i⟩, hf, a, ha, rfl, rfl⟩
    exact ⟨f, List.mem_zipIdx_iff_getElem?.1 hf, ha⟩
  · rintro ⟨f, hf, hc⟩
    exact ⟨(f, d), List.mem_zipIdx_iff_getElem?.2 hf, c, hc, rfl, rfl⟩

theorem occurrences_nodup (formulas : List Formula) : (occurrences formulas).Nodup := by
  refine List.nodup_flatMap.2 ⟨fun f _ => ?_, ?_⟩
  · exact (satisfiable_nodup f.1).map fun a b h => (Prod.mk.inj h).1
  · have hpos : (formulas.zipIdx).Pairwise fun f g => f.2 ≠ g.2 := by
      rw [← List.pairwise_map (f := Prod.snd) (R := fun i j => i ≠ j), List.zipIdx_map_snd]
      exact List.nodup_range'
    refine hpos.imp fun {f g} hne o hf hg => ?_
    obtain ⟨a, _, rfl⟩ := List.mem_map.1 hf
    obtain ⟨b, _, h⟩ := List.mem_map.1 hg
    exact hne (Prod.mk.inj h).2.symm

/-- The documents that have a clause. -/
def documentsOf (formulas : List Formula) (c : Clause) : List Nat :=
  ((occurrences formulas).filter fun o => o.1 == c).map (·.2)

theorem mem_documentsOf :
    d ∈ documentsOf formulas c ↔ ∃ f, formulas[d]? = some f ∧ c ∈ satisfiable f := by
  rw [← mem_occurrences]
  simp [documentsOf, List.mem_map, List.mem_filter]

theorem documentsOf_nodup (formulas : List Formula) (c : Clause) :
    (documentsOf formulas c).Nodup := by
  refine List.Nodup.map_on ?_ ((occurrences_nodup formulas).filter _)
  rintro ⟨a, i⟩ ha ⟨b, j⟩ hb (rfl : i = j)
  simp only [List.mem_filter, beq_iff_eq] at ha hb
  rw [ha.2, hb.2]

/-- The clauses of all formulas, each once. -/
def clausesOf (formulas : List Formula) : List Clause :=
  ((occurrences formulas).map (·.1)).eraseDups

theorem distinctClauses_occurrences (formulas : List Formula) :
    distinctClauses (occurrences formulas) =
      (clausesOf formulas).map fun c => (c, documentsOf formulas c) := rfl

theorem clausesOf_nodup (formulas : List Formula) : (clausesOf formulas).Nodup :=
  nodup_eraseDups _

theorem mem_clausesOf : c ∈ clausesOf formulas ↔ ∃ f ∈ formulas, c ∈ satisfiable f := by
  simp only [clausesOf, List.mem_eraseDups, List.mem_map, Prod.exists, exists_and_right,
    exists_eq_right, mem_occurrences]
  constructor
  · rintro ⟨d, f, hf, hc⟩
    exact ⟨f, List.mem_of_getElem? hf, hc⟩
  · rintro ⟨f, hf, hc⟩
    obtain ⟨d, hd⟩ := List.getElem?_of_mem hf
    exact ⟨d, f, hd, hc⟩

/-- Those of a formula are the ones of it that can hold. -/
theorem filter_clausesOf_perm {f : Formula} (hf : f ∈ formulas) :
    ((clausesOf formulas).filter fun c => (satisfiable f).contains c).Perm (satisfiable f) := by
  refine (List.perm_ext_iff_of_nodup ((clausesOf_nodup _).filter _) (satisfiable_nodup f)).2 ?_
  intro c
  simp only [List.mem_filter, List.contains_iff_mem, and_iff_right_iff_imp]
  exact fun hc => mem_clausesOf.2 ⟨f, hf, hc⟩

/-! ## What is built -/

section

variable (documents : List (String × Formula)) (strategy : OrderStrategy)

theorem build_nil : build [] strategy = {} := by
  have horder : checkedOrder strategy [] = [] :=
    List.eq_nil_iff_forall_not_mem.2 fun _ hid => List.not_mem_nil (mem_checkedOrder.1 hid)
  have hcounts : countReferences [] = [] := rfl
  simp [build, hcounts, horder]

theorem layout_order : (layout documents strategy).order =
    checkedOrder strategy (referenceCounts (clausesOf (documents.map (·.2)))) := by
  simp [layout, distinctClauses_occurrences, Function.comp_def]

theorem layout_clauses : (layout documents strategy).clauses =
    (clausesOf (documents.map (·.2))).map fun c =>
      compileClause (layout documents strategy).order c (documentsOf (documents.map (·.2)) c) := by
  simp [layout, distinctClauses_occurrences, Function.comp_def]

theorem layout_documentNames :
    (layout documents strategy).documentNames = documents.map (·.1) := rfl

theorem layout_clausesPerDocument : (layout documents strategy).clausesPerDocument =
    documents.map fun d => (satisfiable d.2).length := by
  simp [layout]

theorem layout_references : (layout documents strategy).references =
    (List.range (layout documents strategy).order.length).map
      (referencing (layout documents strategy).clauses) := by
  simp only [layout]

theorem mem_layout_clauses {c : CompiledClause} :
    c ∈ (layout documents strategy).clauses ↔ ∃ a ∈ clausesOf (documents.map (·.2)),
      compileClause (layout documents strategy).order a (documentsOf (documents.map (·.2)) a) =
        c := by
  rw [layout_clauses, List.mem_map]

theorem layout_order_nodup : (layout documents strategy).order.Nodup := by
  rw [layout_order]
  exact checkedOrder_nodup strategy _

/-- Exactly the predicates of the clauses have a turn. -/
theorem mem_layout_order {id : PredicateId} : id ∈ (layout documents strategy).order ↔
    ∃ c ∈ clausesOf (documents.map (·.2)), id ∈ c.predicates := by
  rw [layout_order, mem_checkedOrder]
  simp only [referenceCounts, List.map_map, Function.comp_def, List.map_id']
  exact OrderedSet.mem_ofList.trans List.mem_flatMap

end

/-! ## Bits -/

section

variable {order : List PredicateId} {docs : List Nat} {p : Nat}

theorem idxOf?_eq_some_iff_getElem? (hn : order.Nodup) {id : PredicateId} :
    order.idxOf? id = some p ↔ order[p]? = some id := by
  rw [List.idxOf?_eq_some_iff]
  constructor
  · rintro ⟨h, rfl, -⟩
    exact List.getElem?_eq_getElem h
  · intro h
    obtain ⟨hlt, he⟩ := List.getElem?_eq_some_iff.1 h
    refine ⟨hlt, he, fun j hj he' => ?_⟩
    have := (List.Nodup.getElem_inj_iff hn).1 (he'.trans he.symm)
    omega

theorem card_filter_range (n : Nat) (q : Nat → Bool) :
    ((Finset.range n).filter fun i => q i = true).card = (List.range n).countP q := by
  have hrange : (List.range n).toFinset = Finset.range n := by
    ext i
    simp
  rw [← hrange, List.nodup_range.card_eq_countP]
  simp

theorem countP_range_getElem? {α : Type} (l : List α) (q : α → Bool) :
    ((List.range l.length).countP fun i => l[i]?.any q) = l.countP q := by
  induction l with
  | nil => rfl
  | cons a rest ih =>
    rw [List.length_cons, List.range_succ_eq_map, List.countP_cons, List.countP_cons,
      List.countP_map, ← ih]
    rfl

/-- The positions of literals are those of their predicates. -/
theorem test_positions (hn : order.Nodup) (literals : List Literal) :
    ((literals.filterMap fun l => l.predicate?.bind (order.idxOf? ·)).foldl Bitmask.set
      (.zeros order.length)).test p = true ↔
      ∃ id negated, .predicate id negated ∈ literals ∧ order[p]? = some id := by
  rw [Bitmask.test_foldl_set, Bitmask.test_zeros, Bool.false_or, decide_eq_true_eq,
    List.mem_filterMap]
  constructor
  · rintro ⟨⟨l, hl, hid⟩, _⟩
    cases l with
    | constant b => cases hid
    | predicate id negated => exact ⟨id, negated, hl, (idxOf?_eq_some_iff_getElem? hn).1 hid⟩
  · rintro ⟨id, negated, hl, hid⟩
    exact ⟨⟨_, hl, (idxOf?_eq_some_iff_getElem? hn).2 hid⟩, (List.getElem?_eq_some_iff.1 hid).1⟩

theorem compileClause_mask_length : (compileClause order c docs).mask.length = order.length :=
  Bitmask.length_foldl_set _ _

theorem test_compileClause_mask (hn : order.Nodup) :
    (compileClause order c docs).mask.test p = true ↔
      ∃ id ∈ c.predicates, order[p]? = some id := by
  refine (test_positions hn _).trans ?_
  simp only [Clause.mem_predicates, OrderedSet.mem_def]
  constructor
  · rintro ⟨id, n, hl, hp⟩
    exact ⟨id, ⟨n, hl⟩, hp⟩
  · rintro ⟨id, ⟨n, hl⟩, hp⟩
    exact ⟨id, n, hl, hp⟩

theorem test_compileClause_polarity (hn : order.Nodup) :
    (compileClause order c docs).polarity.test p = true ↔
      ∃ id, .predicate id false ∈ c.literals ∧ order[p]? = some id := by
  refine (test_positions hn _).trans ?_
  simp only [List.mem_filter, OrderedSet.mem_def]
  constructor
  · rintro ⟨id, n, ⟨hl, hnot⟩, hp⟩
    cases n with
    | false => exact ⟨id, hl, hp⟩
    | true => simp [Literal.isNegated] at hnot
  · rintro ⟨id, hl, hp⟩
    exact ⟨id, false, ⟨hl, rfl⟩, hp⟩

/-- The polarity at the position of a predicate is what its only literal requires. -/
theorem test_compileClause_polarity_of_mem (hn : order.Nodup) (hr : c.IsReduced)
    {id : PredicateId} {negated : Bool} (hl : .predicate id negated ∈ c.literals)
    (hp : order[p]? = some id) : (compileClause order c docs).polarity.test p = !negated := by
  rw [Bool.eq_iff_iff, test_compileClause_polarity hn]
  simp only [hp, Option.some.injEq, Bool.not_eq_true']
  constructor
  · rintro ⟨i, hi, rfl⟩
    cases negated with
    | false => rfl
    | true => exact absurd hi (hr.no_complement id hl)
  · rintro rfl
    exact ⟨id, hl, rfl⟩

theorem compileClause_literalCount : (compileClause order c docs).literalCount =
    ((compileClause order c docs).openPositions ∅).card := by
  have hopen : (compileClause order c docs).openPositions ∅ =
      (Finset.range (compileClause order c docs).mask.length).filter
        fun p => (compileClause order c docs).mask.test p = true := by
    simp [CompiledClause.openPositions]
  rw [hopen, card_filter_range]
  exact Bitmask.count_eq_countP _

end

/-! ## The tables fit together -/

section

variable {documents : List (String × Formula)} {strategy : OrderStrategy} {j : Nat}

theorem getElem?_layout_clauses {a : CompiledClause} :
    (layout documents strategy).clauses[j]? = some a ↔
      ∃ c, (clausesOf (documents.map (·.2)))[j]? = some c ∧
        compileClause (layout documents strategy).order c (documentsOf (documents.map (·.2)) c) =
          a := by
  rw [layout_clauses, List.getElem?_map, Option.map_eq_some_iff]

theorem has_layout_iff : (layout documents strategy).Has j d ↔
    ∃ c f, (clausesOf (documents.map (·.2)))[j]? = some c ∧ documents[d]?.map (·.2) = some f ∧
      c ∈ satisfiable f := by
  simp only [Has, getElem?_layout_clauses]
  constructor
  · rintro ⟨_, ⟨c, hc, rfl⟩, hd⟩
    obtain ⟨f, hf, hmem⟩ := mem_documentsOf.1 hd
    exact ⟨c, f, hc, by rwa [List.getElem?_map] at hf, hmem⟩
  · rintro ⟨c, f, hc, hf, hmem⟩
    exact ⟨_, ⟨c, hc, rfl⟩, mem_documentsOf.2 ⟨f, by rwa [List.getElem?_map], hmem⟩⟩

/-- A document has as many compiled clauses as its formula has clauses that can hold: both lists
are free of repetitions and have the same members. -/
theorem card_has_layout {name : String} {f : Formula} (hf : documents[d]? = some (name, f)) :
    ((Finset.range (layout documents strategy).clauses.length).filter fun j =>
      (layout documents strategy).Has j d).card = (satisfiable f).length := by
  have hhas (j : Nat) : (layout documents strategy).Has j d ↔
      ((clausesOf (documents.map (·.2)))[j]?.any fun c => (satisfiable f).contains c) = true := by
    simp [has_layout_iff, hf, Option.any_eq_true]
  have hperm := filter_clausesOf_perm (List.mem_map_of_mem (f := Prod.snd) (List.mem_of_getElem? hf))
  simp only [hhas]
  rw [card_filter_range, layout_clauses, List.length_map, ← hperm.length_eq,
    countP_range_getElem?, List.countP_eq_length_filter]

theorem consistent_layout : (layout documents strategy).Consistent where
  nodup c hc := by
    obtain ⟨a, _, rfl⟩ := (mem_layout_clauses documents strategy).1 hc
    exact documentsOf_nodup _ a
  named c hc d hd := by
    obtain ⟨a, _, rfl⟩ := (mem_layout_clauses documents strategy).1 hc
    obtain ⟨f, hf, _⟩ := mem_documentsOf.1 hd
    simpa [layout_documentNames] using (List.getElem?_eq_some_iff.1 hf).1
  masks c hc := by
    obtain ⟨a, _, rfl⟩ := (mem_layout_clauses documents strategy).1 hc
    exact compileClause_mask_length
  literalCount c hc := by
    obtain ⟨a, _, rfl⟩ := (mem_layout_clauses documents strategy).1 hc
    exact compileClause_literalCount
  clausesPerDocument := by
    refine ⟨by simp [layout_clausesPerDocument, layout_documentNames], fun d hd => ?_⟩
    rw [layout_documentNames, List.length_map] at hd
    obtain ⟨name, f, hf⟩ : ∃ name f, documents[d]? = some (name, f) :=
      ⟨_, _, List.getElem?_eq_getElem hd⟩
    rw [card_has_layout hf, layout_clausesPerDocument, List.getElem?_map, hf]
    rfl
  references p hp := by
    refine ⟨_, by rw [layout_references, List.getElem?_map, List.getElem?_range hp]; rfl, ?_, ?_⟩
    · refine List.Nodup.map_on ?_ ?_
      · rintro ⟨a, i⟩ ha ⟨b, k⟩ hb (rfl : i = k)
        have ha' := List.mem_zipIdx_iff_getElem?.1 (List.mem_filter.1 ha).1
        have hb' := List.mem_zipIdx_iff_getElem?.1 (List.mem_filter.1 hb).1
        exact Prod.ext (Option.some.inj (ha'.symm.trans hb')) rfl
      · refine List.Nodup.filter _ (List.Nodup.of_map Prod.snd ?_)
        rw [List.zipIdx_map_snd]
        exact List.nodup_range'
    · intro j
      simp only [referencing, List.mem_map, List.mem_filter, Prod.exists, exists_eq_right]
      exact exists_congr fun c => and_congr_left fun _ => List.mem_zipIdx_iff_getElem?

end

/-! ## What a run matches -/

/-- The outcomes at the positions of an order. -/
def outcomesAt (order : List PredicateId) (o : Outcomes) : Nat → Option Bool :=
  fun p => order[p]?.bind o

theorem outcomesAt_of_getElem? {order : List PredicateId} {o : Outcomes} {p : Nat}
    {id : PredicateId} (h : order[p]? = some id) : outcomesAt order o p = o id := by
  simp [outcomesAt, h]

/-- The outcome at the position of a predicate is the required one where its literal holds. -/
theorem outcomesAt_eq_polarity_iff {order : List PredicateId} {docs : List Nat} {o : Outcomes}
    (hn : order.Nodup) (hr : c.IsReduced) {id : PredicateId} {negated : Bool} {p : Nat}
    (hl : .predicate id negated ∈ c.literals) (hp : order[p]? = some id) :
    outcomesAt order o p = some ((compileClause order c docs).polarity.test p) ↔
      (Literal.predicate id negated).truth? o = some true := by
  rw [outcomesAt_of_getElem? hp, test_compileClause_polarity_of_mem hn hr hl hp]
  cases h : o id with
  | none => simp [Literal.truth?, h]
  | some b => cases b <;> cases negated <;> simp [Literal.truth?, h]

/-- The bits of a clause say what its literals say. -/
theorem holds_compileClause_iff {order : List PredicateId} {docs : List Nat} {o : Outcomes}
    (hn : order.Nodup) (hr : c.IsReduced) (hf : c.isFalse = false)
    (hin : ∀ id ∈ c.predicates, id ∈ order) :
    (compileClause order c docs).Holds (outcomesAt order o) ↔ c.isSatisfied o = true := by
  rw [Clause.isSatisfied_iff]
  constructor
  · intro h l hl
    cases l with
    | constant b =>
      cases b with
      | true => rfl
      | false =>
        rw [hr.isFalse_of_mem hl] at hf
        cases hf
    | predicate id negated =>
      have hid := Clause.mem_predicates.2 ⟨negated, hl⟩
      obtain ⟨p, hp⟩ := List.getElem?_of_mem (hin id hid)
      exact (outcomesAt_eq_polarity_iff hn hr hl hp).1
        (h p ((test_compileClause_mask hn).2 ⟨id, hid, hp⟩))
  · intro h p hp
    obtain ⟨id, hid, hp⟩ := (test_compileClause_mask hn).1 hp
    obtain ⟨negated, hl⟩ := Clause.mem_predicates.1 hid
    exact (outcomesAt_eq_polarity_iff hn hr hl hp).2 (h _ hl)

section

variable {documents : List (String × Formula)} {strategy : OrderStrategy}
  {predicates : PredicateTable} {evaluate : PredicateEvaluator}

/-- Every formula is reduced, and its predicates have numbers of the table. -/
structure Closed (documents : List (String × Formula)) (predicates : PredicateTable) : Prop where
  reduced : ∀ d ∈ documents, d.2.IsReduced
  numbered : ∀ d ∈ documents, ∀ id ∈ d.2.predicates, id < predicates.size

theorem mem_layout_order_iff {id : PredicateId} : id ∈ (layout documents strategy).order ↔
    ∃ d ∈ documents, ∃ c ∈ satisfiable d.2, id ∈ c.predicates := by
  rw [mem_layout_order]
  constructor
  · rintro ⟨c, hc, hid⟩
    obtain ⟨f, hf, hsat⟩ := mem_clausesOf.1 hc
    obtain ⟨d, hd, rfl⟩ := List.mem_map.1 hf
    exact ⟨d, hd, c, hsat, hid⟩
  · rintro ⟨d, hd, c, hsat, hid⟩
    exact ⟨c, mem_clausesOf.2 ⟨d.2, List.mem_map_of_mem hd, hsat⟩, hid⟩

/-- Every predicate that has a turn is in the table. -/
theorem Closed.turns (h : Closed documents predicates) (p : Nat) (id : PredicateId)
    (hid : (layout documents strategy).order[p]? = some id) :
    ∃ e, predicates.get? id = some e ∧
      outcomesAt (layout documents strategy).order (predicates.outcomes evaluate) p =
        (evaluate e).toOption := by
  obtain ⟨d, hd, c, hsat, hmem⟩ := mem_layout_order_iff.1 (List.mem_of_getElem? hid)
  have hlt := h.numbered d hd id (Formula.mem_predicates.2 ⟨c, (mem_satisfiable.1 hsat).1, hmem⟩)
  obtain ⟨e, hget⟩ : ∃ e, predicates.get? id = some e := ⟨_, List.getElem?_eq_getElem hlt⟩
  refine ⟨e, hget, ?_⟩
  rw [outcomesAt_of_getElem? hid, PredicateTable.outcomes, hget]
  rfl

variable (strategy evaluate) in
theorem matched_layout_iff (h : Closed documents predicates) {d : Nat} {name : String}
    {f : Formula} (hf : documents[d]? = some (name, f)) :
    ((layout documents strategy).run predicates evaluate).state.documents[d]? = some .matched ↔
      f.isSatisfied (predicates.outcomes evaluate) = true := by
  have hd : d < (layout documents strategy).documentNames.length := by
    rw [layout_documentNames, List.length_map]
    exact (List.getElem?_eq_some_iff.1 hf).1
  have hmem := List.mem_of_getElem? hf
  have hholds {c : Clause} (hc : c ∈ satisfiable f) {docs : List Nat} :
      (compileClause (layout documents strategy).order c docs).Holds
        (outcomesAt (layout documents strategy).order (predicates.outcomes evaluate)) ↔
      c.isSatisfied (predicates.outcomes evaluate) = true :=
    holds_compileClause_iff (layout_order_nodup documents strategy)
      (h.reduced _ hmem c (mem_satisfiable.1 hc).1) (mem_satisfiable.1 hc).2
      fun id hid => mem_layout_order_iff.2 ⟨_, hmem, c, hc, hid⟩
  rw [matched_iff consistent_layout h.turns hd, Formula.isSatisfied_iff]
  constructor
  · rintro ⟨_, hc, hdoc, hsat⟩
    obtain ⟨c, _, rfl⟩ := (mem_layout_clauses documents strategy).1 hc
    obtain ⟨g, hg, hcg⟩ := mem_documentsOf.1 hdoc
    rw [List.getElem?_map, hf] at hg
    obtain rfl : f = g := Option.some.inj hg
    exact ⟨c, (mem_satisfiable.1 hcg).1, (hholds hcg).1 hsat⟩
  · rintro ⟨c, hc, hsat⟩
    have hfalse : c.isFalse = false := by
      refine Bool.eq_false_iff.2 fun he => ?_
      rw [Clause.eq_of_isFalse he, Clause.isSatisfied_constant] at hsat
      cases hsat
    have hcg : c ∈ satisfiable f := mem_satisfiable.2 ⟨hc, hfalse⟩
    have hall : c ∈ clausesOf (documents.map (·.2)) :=
      mem_clausesOf.2 ⟨f, List.mem_map_of_mem (f := Prod.snd) hmem, hcg⟩
    refine ⟨_, (mem_layout_clauses documents strategy).2 ⟨c, hall, rfl⟩, ?_, (hholds hcg).2 hsat⟩
    exact mem_documentsOf.2 ⟨f, by rw [List.getElem?_map, hf]; rfl, hcg⟩

variable (strategy evaluate) in
theorem exists_runsTo_layout (h : Closed documents predicates) :
    ∃ k seen, MatchRun.RunsTo (layout documents strategy) predicates evaluate
      (outcomesAt (layout documents strategy).order (predicates.outcomes evaluate)) k seen
      ((layout documents strategy).run predicates evaluate) ∧
      ((layout documents strategy).order.length ≤ k ∨
        ((layout documents strategy).run predicates evaluate).state.undetermined = 0) :=
  exists_runsTo consistent_layout h.turns

/-- Filtering by what stands beside the entries. -/
theorem map_filter_zip {α β γ : Type} {entries : List (α × β)} {beside : List γ} {p : γ → Bool}
    {q : α × β → Bool} (h : beside.map p = entries.map q) :
    (((entries.map (·.1)).zip beside).filter fun e => p e.2).map (·.1) =
      (entries.filter q).map (·.1) := by
  induction entries generalizing beside with
  | nil => rfl
  | cons e rest ih =>
    cases beside with
    | nil => cases h
    | cons b others =>
      obtain ⟨hb, hothers⟩ := List.cons.inj h
      rw [List.map_cons, List.zip_cons_cons, List.filter_cons, List.filter_cons, hb]
      split
      · rw [List.map_cons, List.map_cons, ih hothers]
      · exact ih hothers

variable (strategy evaluate) in
/-- The names of the matched documents, in their order. -/
theorem matched_layout (h : Closed documents predicates) :
    (layout documents strategy).matched
      ((layout documents strategy).run predicates evaluate).state =
      (documents.filter fun d => d.2.isSatisfied (predicates.outcomes evaluate)).map (·.1) := by
  obtain ⟨k, seen, hrun, -⟩ := exists_runsTo_layout strategy evaluate h
  have hlen := hrun.represents.documents_length
  rw [layout_documentNames, List.length_map] at hlen
  have hstates : ((layout documents strategy).run predicates evaluate).state.documents.map
      (· == .matched) = documents.map fun d => d.2.isSatisfied (predicates.outcomes evaluate) := by
    refine List.ext_getElem (by rw [List.length_map, List.length_map, hlen]) fun d h₁ h₂ => ?_
    rw [List.length_map] at h₁ h₂
    have hiff := matched_layout_iff strategy evaluate h (List.getElem?_eq_getElem h₂)
    rw [List.getElem?_eq_getElem h₁, Option.some.injEq] at hiff
    rw [List.getElem_map, List.getElem_map, Bool.eq_iff_iff, beq_iff_eq]
    exact hiff
  exact map_filter_zip hstates

end

end MatchingTables
end PolicyDecision
