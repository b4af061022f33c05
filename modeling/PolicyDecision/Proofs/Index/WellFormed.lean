import PolicyDecision.Proofs.Index.History
import PolicyDecision.Proofs.Index.Operations
import PolicyDecision.Proofs.Index.Retrieval

/-!
# PolicyDecision.Proofs.Index.WellFormed

The shape of every index that updates lead to.

The predicate table has just the predicates that some formula references, each once, and the matching
tables are an exact encoding of the formulas.

* `CompiledClause.Encodes`: the bits and the documents of a clause say what the clause and the formulas say.
* `CanonicalIndex.lt_size_compact_iff`: compaction leaves just the referenced predicates.
* `CanonicalIndex.IsWellFormed`: the shape of an index.
* `CanonicalIndex.isWellFormed_of_applyEach`: every index that batches lead to has it, and its table is that
  of the operations on two structures.
-/

namespace PolicyDecision

/-! ## Clauses -/

/-- A compiled clause encodes a clause of some formulas: its bits are the literals of the clause, at the
positions of their predicates, and its documents are the positions of the formulas that have the
clause. -/
structure CompiledClause.Encodes (order : List PredicateId) (formulas : List Formula) (c : Clause)
    (compiled : CompiledClause) : Prop where
  mask_length : compiled.mask.length = order.length
  polarity_length : compiled.polarity.length = order.length
  literals : ∀ id negated, .predicate id negated ∈ c.literals ↔
    ∃ p, order[p]? = some id ∧ compiled.mask.test p = true ∧ compiled.polarity.test p = !negated
  polarity : ∀ p, compiled.polarity.test p = true → compiled.mask.test p = true
  literalCount : compiled.literalCount = (List.range compiled.mask.length).countP compiled.mask.test
  ascending : compiled.documents.Pairwise (· < ·)
  mem_documents : ∀ d, d ∈ compiled.documents ↔ ∃ f, formulas[d]? = some f ∧ c ∈ f.clauses

/-- Different normal clauses have different encodings. -/
theorem CompiledClause.Encodes.injective {order : List PredicateId} {formulas : List Formula}
    {a c : Clause} {compiled : CompiledClause} (ha : compiled.Encodes order formulas a)
    (hc : compiled.Encodes order formulas c) (hna : a.IsNormal) (hnc : c.IsNormal)
    (hfa : a.isFalse = false) (hfc : c.isFalse = false) : a = c := by
  have hsame (id : PredicateId) (negated : Bool) :
      .predicate id negated ∈ a.literals ↔ .predicate id negated ∈ c.literals :=
    (ha.literals id negated).trans (hc.literals id negated).symm
  have hmixed {a c : Clause} (ha : a.IsProper)
      (hsame : ∀ id negated, .predicate id negated ∈ a.literals ↔ .predicate id negated ∈ c.literals)
      (b : Bool) : c ≠ .constant b := by
    rintro rfl
    obtain ⟨l, hl⟩ := ha.nonempty
    cases l with
    | constant b => cases ha.no_constant _ hl
    | predicate id negated => cases OrderedSet.mem_singleton.1 ((hsame id negated).1 hl)
  rcases hna with hna | ⟨b, rfl⟩
  · rcases hnc with hnc | ⟨b, rfl⟩
    · refine Clause.ext (congrArg OrderedSet.items (OrderedSet.ext fun l => ?_))
      cases l with
      | constant b =>
        exact ⟨fun h => (nomatch hna.no_constant _ h), fun h => (nomatch hnc.no_constant _ h)⟩
      | predicate id negated => exact hsame id negated
    · exact absurd rfl (hmixed hna hsame b)
  · rcases hnc with hnc | ⟨b', rfl⟩
    · exact absurd rfl (hmixed hnc (fun id n => (hsame id n).symm) b)
    · have htrue {b : Bool} (h : (Clause.constant b).isFalse = false) : b = true := by
        cases b with
        | true => rfl
        | false => cases h
      rw [htrue hfa, htrue hfc]

namespace MatchingTables

variable {order : List PredicateId} {formulas : List Formula} {c : Clause}

theorem occurrences_ascending (formulas : List Formula) :
    (occurrences formulas).Pairwise fun a b => a.2 ≤ b.2 := by
  refine List.pairwise_flatMap.2 ⟨fun f _ => ?_, ?_⟩
  · rw [List.pairwise_map]
    exact (satisfiable_nodup f.1).imp fun _ => Nat.le_refl _
  · have hpos : (formulas.zipIdx).Pairwise fun f g => f.2 < g.2 := by
      rw [← List.pairwise_map (f := Prod.snd) (R := fun i j => i < j), List.zipIdx_map_snd]
      exact List.pairwise_lt_range'
    refine hpos.imp fun {f g} hlt a ha b hb => ?_
    obtain ⟨_, _, rfl⟩ := List.mem_map.1 ha
    obtain ⟨_, _, rfl⟩ := List.mem_map.1 hb
    exact Nat.le_of_lt hlt

theorem documentsOf_ascending (formulas : List Formula) (c : Clause) :
    (documentsOf formulas c).Pairwise (· < ·) := by
  have hle : (documentsOf formulas c).Pairwise (· ≤ ·) := by
    rw [documentsOf, List.pairwise_map]
    exact (occurrences_ascending formulas).filter _
  exact (hle.and (documentsOf_nodup formulas c)).imp fun h => Nat.lt_of_le_of_ne h.1 h.2

theorem encodes_compileClause (hn : order.Nodup) (hr : c.IsReduced) (hf : c.isFalse = false)
    (hin : ∀ id ∈ c.predicates, id ∈ order) :
    (compileClause order c (documentsOf formulas c)).Encodes order formulas c where
  mask_length := compileClause_mask_length
  polarity_length := Bitmask.length_foldl_set _ _
  literals id negated := by
    constructor
    · intro hl
      have hid := Clause.mem_predicates.2 ⟨negated, hl⟩
      obtain ⟨p, hp⟩ := List.getElem?_of_mem (hin id hid)
      exact ⟨p, hp, (test_compileClause_mask hn).2 ⟨id, hid, hp⟩,
        test_compileClause_polarity_of_mem hn hr hl hp⟩
    · rintro ⟨p, hp, hmask, hpol⟩
      obtain ⟨i, hi, hpi⟩ := (test_compileClause_mask hn).1 hmask
      obtain rfl : i = id := Option.some.inj (hpi.symm.trans hp)
      obtain ⟨negated', hl⟩ := Clause.mem_predicates.1 hi
      rw [test_compileClause_polarity_of_mem hn hr hl hp, Bool.not_inj_iff] at hpol
      rwa [← hpol]
  polarity p hp := by
    obtain ⟨id, hl, hp⟩ := (test_compileClause_polarity hn).1 hp
    exact (test_compileClause_mask hn).2 ⟨id, Clause.mem_predicates.2 ⟨_, hl⟩, hp⟩
  literalCount := Bitmask.count_eq_countP _
  ascending := documentsOf_ascending formulas c
  mem_documents d := by
    rw [compileClause, mem_documentsOf]
    simp [mem_satisfiable, hf]

theorem referencing_ascending (clauses : List CompiledClause) (p : Nat) :
    (referencing clauses p).Pairwise (· < ·) := by
  refine List.Pairwise.sublist (List.filter_sublist.map _) ?_
  rw [List.zipIdx_map_snd]
  exact List.pairwise_lt_range'

theorem mem_referencing {clauses : List CompiledClause} {p j : Nat} :
    j ∈ referencing clauses p ↔ ∃ c, clauses[j]? = some c ∧ c.mask.test p = true := by
  simp only [referencing, List.mem_map, List.mem_filter, Prod.exists, exists_eq_right]
  exact exists_congr fun c => and_congr_left fun _ => List.mem_zipIdx_iff_getElem?

section

variable (documents : List (String × Formula)) (strategy : OrderStrategy)

theorem mem_clausesOf_iff :
    c ∈ clausesOf formulas ↔ c.isFalse = false ∧ ∃ f ∈ formulas, c ∈ f.clauses := by
  rw [mem_clausesOf]
  simp only [mem_satisfiable]
  exact ⟨fun ⟨f, hf, hc, hfalse⟩ => ⟨hfalse, f, hf, hc⟩,
    fun ⟨hfalse, f, hf, hc⟩ => ⟨f, hf, hc, hfalse⟩⟩

variable {documents} in
theorem encodes_of_mem_clausesOf (h : ∀ d ∈ documents, d.2.IsNormal)
    (hc : c ∈ clausesOf (documents.map (·.2))) :
    c.IsNormal ∧ c.isFalse = false ∧
      (compileClause (layout documents strategy).order c
        (documentsOf (documents.map (·.2)) c)).Encodes (layout documents strategy).order
          (documents.map (·.2)) c := by
  obtain ⟨hf, f, hmem, hcf⟩ := mem_clausesOf_iff.1 hc
  obtain ⟨d, hd, rfl⟩ := List.mem_map.1 hmem
  have hnormal := (h d hd).clauses c hcf
  exact ⟨hnormal, hf, encodes_compileClause (layout_order_nodup documents strategy)
    hnormal.isReduced hf fun id hid => (mem_layout_order documents strategy).2 ⟨c, hc, hid⟩⟩

/-- Every clause is encoded, in the order of the clauses. -/
theorem encodes_layout (h : ∀ d ∈ documents, d.2.IsNormal) :
    List.Forall₂ (fun c compiled => CompiledClause.Encodes (layout documents strategy).order
      (documents.map (·.2)) c compiled) (clausesOf (documents.map (·.2)))
      (layout documents strategy).clauses := by
  rw [layout_clauses, List.forall₂_map_right_iff, List.forall₂_same]
  exact fun c hc => (encodes_of_mem_clausesOf strategy h hc).2.2

theorem layout_clauses_nodup (h : ∀ d ∈ documents, d.2.IsNormal) :
    (layout documents strategy).clauses.Nodup := by
  rw [layout_clauses]
  refine List.Nodup.map_on (fun a ha c hc he => ?_) (clausesOf_nodup _)
  obtain ⟨hna, hfa, hea⟩ := encodes_of_mem_clausesOf strategy h ha
  obtain ⟨hnc, hfc, hec⟩ := encodes_of_mem_clausesOf strategy h hc
  rw [he] at hea
  exact hea.injective hec hna hnc hfa hfc

/-- Every clause of a document is counted once. -/
theorem layout_clausesPerDocument_eq : (layout documents strategy).clausesPerDocument =
    (List.range documents.length).map fun d =>
      (layout documents strategy).clauses.countP fun c => c.documents.contains d := by
  refine List.ext_getElem (by simp [layout_clausesPerDocument]) fun d h₁ h₂ => ?_
  have hd : d < documents.length := by simpa using h₂
  have hcard : ((Finset.range (layout documents strategy).clauses.length).filter fun j =>
      (layout documents strategy).Has j d).card = (satisfiable documents[d].2).length :=
    card_has_layout (List.getElem?_eq_getElem hd)
  have hhas (j : Nat) : (layout documents strategy).Has j d ↔
      ((layout documents strategy).clauses[j]?.any fun c => c.documents.contains d) = true := by
    simp [Has, Option.any_eq_true]
  simp only [hhas] at hcard
  rw [card_filter_range, countP_range_getElem?] at hcard
  rw [List.getElem_map, List.getElem_range, hcard]
  simp [layout_clausesPerDocument]

/-- The predicates of the formulas have a turn each. -/
theorem layout_order_perm {n : Nat}
    (h : ∀ id, id < n ↔ ∃ d ∈ documents, id ∈ d.2.predicates) :
    (layout documents strategy).order.Perm (List.range n) := by
  refine (List.perm_ext_iff_of_nodup (layout_order_nodup documents strategy) List.nodup_range).2
    fun id => ?_
  rw [mem_layout_order_iff, List.mem_range, h]
  refine exists_congr fun d => and_congr_right fun _ => ?_
  rw [Formula.mem_predicates]
  constructor
  · rintro ⟨c, hc, hid⟩
    exact ⟨c, (mem_satisfiable.1 hc).1, hid⟩
  · rintro ⟨c, hc, hid⟩
    refine ⟨c, mem_satisfiable.2 ⟨hc, Bool.eq_false_iff.2 fun hf => ?_⟩, hid⟩
    rw [Clause.eq_of_isFalse hf] at hid
    exact Clause.not_mem_predicates_constant false hid

end

end MatchingTables

/-! ## Compaction -/

namespace CanonicalIndex

/-- After compaction just the referenced predicates have numbers. -/
theorem lt_size_compact_iff {p : Publications PredicateTable IndexedDocument}
    (hlt : ∀ b ∈ p.documents.entries, ∀ id ∈ b.2.formula.predicates, id < p.state.size)
    {id : PredicateId} :
    id < (compact p).state.size ↔
      ∃ b ∈ (compact p).documents.entries, id ∈ b.2.formula.predicates := by
  have hsurvivor {i : PredicateId} (hi : i ∈ referenced p.documents) : i < p.state.size := by
    obtain ⟨b, hb, hi⟩ := mem_referenced.1 hi
    exact hlt b hb i hi
  unfold compact
  dsimp only
  split
  · have hsize : (p.state.compacted (referenced p.documents)).size =
        (p.state.survivors (referenced p.documents)).length := by
      rw [PredicateTable.size, PredicateTable.predicates_compacted, List.length_map]
    have hlisted {i : PredicateId} (hi : i ∈ referenced p.documents) :=
      PredicateTable.getElem?_survivors (hsurvivor hi) hi
    rw [hsize]
    constructor
    · intro hid
      have hmem := PredicateTable.mem_survivors.1 (List.getElem_mem hid)
      obtain ⟨b, hb, hi⟩ := mem_referenced.1 hmem.2
      -- the survivor at a position gets the position as its number
      have hnumber := (List.getElem?_inj hid (p.state.survivors_nodup _)).1
        ((List.getElem?_eq_getElem hid).trans (hlisted hmem.2).symm)
      refine ⟨_, SortedTable.mem_entries_map.2 ⟨b, hb, rfl⟩, ?_⟩
      exact Formula.mem_rename_predicates.2 ⟨_, hi, hnumber.symm⟩
    · rintro ⟨b, hb, hid⟩
      obtain ⟨a, ha, rfl⟩ := SortedTable.mem_entries_map.1 hb
      obtain ⟨i, hi, rfl⟩ := Formula.mem_rename_predicates.1 hid
      exact (List.getElem?_eq_some_iff.1 (hlisted (mem_referenced.2 ⟨a, ha, hi⟩))).1
  · rename_i hfull
    rw [← mem_referenced]
    refine ⟨fun hid => ?_, hsurvivor⟩
    have hsub : (referenced p.documents).items ⊆ List.range p.state.size := fun i hi =>
      List.mem_range.2 (hsurvivor hi)
    have hperm := (List.subperm_of_subset (OrderedSet.nodup _) hsub).perm_of_length_le
      (by simpa [OrderedSet.size] using hfull)
    exact hperm.mem_iff.2 (List.mem_range.2 hid)

/-! ## Indexes -/

/-- The shape of an index after some updates. -/
structure IsWellFormed (updates : List Update) (index : CanonicalIndex) : Prop where
  /-- The documents are those that survive, in the order of their names. -/
  published : ∀ d, (∃ x ∈ index.documents.values, x.document = d) ↔ Update.Survives updates d
  documentNames : index.tables.documentNames = index.documents.values.map (·.document.name)
  ascending : index.tables.documentNames.Pairwise (· < ·)
  /-- The numbers of the table are the predicates that some formula references. -/
  referenced : ∀ id, id < index.predicates.size ↔
    ∃ d ∈ index.documents.values, id ∈ d.formula.predicates
  /-- Every predicate has one signature, which leads to its number. -/
  distinct : index.predicates.IsDistinct
  found : ∀ id p, index.predicates.get? id = some p → index.predicates.find? p = some id
  order : index.tables.order.Perm (List.range index.predicates.size)
  /-- Every clause of a formula that can hold is encoded once. -/
  clauses : ∃ clauses : List Clause, clauses.Nodup ∧
    (∀ c, c ∈ clauses ↔ c.isFalse = false ∧
      ∃ d ∈ index.documents.values, c ∈ d.formula.clauses) ∧
    List.Forall₂ (fun c compiled => CompiledClause.Encodes index.tables.order
      (index.documents.values.map (·.formula)) c compiled) clauses index.tables.clauses
  nodup : index.tables.clauses.Nodup
  references_length : index.tables.references.length = index.tables.order.length
  references : ∀ (p : Nat) (indices : List Nat), index.tables.references[p]? = some indices →
    indices.Pairwise (· < ·) ∧ ∀ j : Nat, j ∈ indices ↔
      ∃ c : CompiledClause, index.tables.clauses[j]? = some c ∧ c.mask.test p = true
  clausesPerDocument : index.tables.clausesPerDocument =
    (List.range index.documents.size).map fun d =>
      index.tables.clauses.countP fun c => c.documents.contains d
  normal : ∀ d ∈ index.documents.values, d.formula.IsNormal

variable {maxClauses : Nat} {strategy : OrderStrategy} {updates : List Update}
  {index : CanonicalIndex} {batches : List UpdateBatch}

theorem IsTracked.isWellFormed (h : index.IsTracked maxClauses strategy updates) :
    index.IsWellFormed updates := by
  obtain ⟨p, hp, he⟩ := h.compacted
  have htracked : index.publications.IsTracked maxClauses updates := h.publications
  have hnormal : ∀ d ∈ index.documents.values, d.formula.IsNormal := by
    intro d hd
    obtain ⟨b, hb, rfl⟩ := List.mem_map.1 hd
    exact (htracked.compiled b hb).isNormal htracked.distinct
  have hall : ∀ d ∈ formulas index.documents, d.2.IsNormal := by
    intro d hd
    obtain ⟨b, hb, rfl⟩ := List.mem_map.1 hd
    exact hnormal _ (List.mem_map_of_mem hb)
  have htables : index.tables = .layout (formulas index.documents) strategy := by
    rw [h.tables, MatchingTables.build_eq_layout fun d hd => (hall d hd).isReduced]
  have hreferenced (id : PredicateId) : id < index.predicates.size ↔
      ∃ b ∈ index.documents.entries, id ∈ b.2.formula.predicates := by
    have hcompact : id < (compact p).state.size ↔ _ :=
      lt_size_compact_iff fun b hb i hi => (hp.compiled b hb).lt hi
    rwa [← he] at hcompact
  have hdocuments : index.tables.documentNames = index.documents.keys := by
    rw [htables, MatchingTables.layout_documentNames]
    simp [formulas, SortedTable.keys, Function.comp_def]
  constructor
  case published => exact fun d => SortedTable.exists_mem_values.trans (htracked.survives d)
  case documentNames => exact hdocuments.trans (values_map_name htracked.named).symm
  case ascending =>
    rw [hdocuments]
    exact index.documents.keys_ascending
  case referenced =>
    intro id
    have hvalues : (∃ d ∈ index.documents.values, id ∈ d.formula.predicates) ↔
        ∃ b ∈ index.documents.entries, id ∈ b.2.formula.predicates :=
      SortedTable.exists_mem_values
    rw [hreferenced, hvalues]
  case distinct => exact htracked.distinct
  case found => exact fun id p hp => htracked.distinct.find? hp rfl
  case order =>
    rw [htables]
    refine MatchingTables.layout_order_perm _ strategy fun id => ?_
    rw [hreferenced]
    simp [formulas]
  case clauses =>
    refine ⟨_, MatchingTables.clausesOf_nodup (index.documents.values.map (·.formula)), ?_, ?_⟩
    · intro c
      rw [MatchingTables.mem_clausesOf_iff]
      simp
    · have hencodes := MatchingTables.encodes_layout (formulas index.documents) strategy hall
      rwa [formulas_map_snd, ← htables] at hencodes
  case nodup =>
    rw [htables]
    exact MatchingTables.layout_clauses_nodup _ strategy hall
  case references_length =>
    rw [htables, MatchingTables.layout_references]
    simp
  case references =>
    intro p indices hp
    rw [htables, MatchingTables.layout_references, List.getElem?_map] at hp
    rw [htables]
    obtain ⟨i, hi, rfl⟩ := Option.map_eq_some_iff.1 hp
    obtain rfl : p = i := by
      rw [List.getElem?_eq_some_iff] at hi
      obtain ⟨_, hi⟩ := hi
      simpa using hi
    exact ⟨MatchingTables.referencing_ascending _ p, fun j => MatchingTables.mem_referencing⟩
  case clausesPerDocument =>
    rw [htables, MatchingTables.layout_clausesPerDocument_eq]
    simp [formulas, SortedTable.size]
  case normal => exact hnormal

/-- Every index that batches lead to is well formed. The list of the predicates with their numbers and the
number of each signature, to which the same operations lead, are in step with its table. -/
theorem isWellFormed_of_applyEach
    (h : (empty maxClauses strategy).applyEach batches = .ok index) :
    index.IsWellFormed (UpdateBatch.history batches) ∧
      ∃ s, SignatureIndex.empty.run ((empty maxClauses strategy).operations batches) = .ok s ∧
        s.Indexes index.predicates :=
  ⟨(isTracked_of_applyEach h).isWellFormed, exists_indexes h⟩

/-- The draft is withdrawn, so that the other predicates move. -/
theorem isWellFormed_office :
    ∃ index, (empty 2 Office.order).applyEach Office.batches = .ok index ∧
      index.predicates = ⟨[.identifier "staff", .identifier "alarm", .identifier "night"]⟩ ∧
      index.IsWellFormed (UpdateBatch.history Office.batches) ∧
      ∃ s, SignatureIndex.empty.run ((empty 2 Office.order).operations Office.batches) = .ok s ∧
        s.Indexes index.predicates := by
  have hindex : (empty 2 Office.order).applyEach Office.batches = .ok _ := rfl
  exact ⟨_, hindex, rfl, isWellFormed_of_applyEach hindex⟩

end CanonicalIndex
end PolicyDecision
