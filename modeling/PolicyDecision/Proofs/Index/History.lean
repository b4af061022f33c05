import PolicyDecision.Proofs.Index.Correspondence

/-!
# PolicyDecision.Proofs.Index.History

What the updates so far say about an index.

* `Update.Survives`: a document is published, and not withdrawn afterwards.
* `IndexedDocument.IsCompiledIn`: a document as some table without repetitions made it, under the numbers
  of the table at hand.
* `Publications.IsTracked`: the documents are those that survive, compiled.
* `CanonicalIndex.isTracked_of_applyEach`: every index that batches lead to comes from such publications by
  compaction.
-/

namespace PolicyDecision

/-- Published, and under no later withdrawal. -/
def Update.Survives (updates : List Update) (d : Document) : Prop :=
  ∃ before after, updates = before ++ .publish d :: after ∧ .withdraw d.name ∉ after

/-- The updates of all batches, in their order. -/
def UpdateBatch.history (batches : List UpdateBatch) : List Update :=
  batches.flatMap UpdateBatch.updates

namespace Update

variable {updates : List Update} {d : Document} {u : Update}

theorem survives_concat :
    Survives (updates ++ [u]) d ↔ u = .publish d ∨ (Survives updates d ∧ u ≠ .withdraw d.name) := by
  constructor
  · rintro ⟨before, after, he, hnot⟩
    rcases List.eq_nil_or_concat after with rfl | ⟨after, v, rfl⟩
    · obtain ⟨-, he⟩ := List.append_inj' he rfl
      exact .inl (List.cons.inj he).1
    · rw [List.concat_eq_append, ← List.cons_append, ← List.append_assoc] at he
      obtain ⟨rfl, hv⟩ := List.append_inj' he rfl
      obtain rfl : u = v := (List.cons.inj hv).1
      rw [List.concat_eq_append, List.mem_append, List.mem_singleton, not_or] at hnot
      exact .inr ⟨⟨before, after, rfl, hnot.1⟩, fun h => hnot.2 h.symm⟩
  · rintro (rfl | ⟨⟨before, after, rfl, hnot⟩, hu⟩)
    · exact ⟨updates, [], rfl, by simp⟩
    · exact ⟨before, after ++ [u], by simp, by simp [hnot, hu.symm]⟩

end Update

/-! ## Compiled documents -/

/-- The same error and corresponding formulas, unless one of the documents was refused for want of
numbers. -/
inductive IndexedDocument.Agree (t u : PredicateTable) (d e : IndexedDocument) : Prop
  | exhausted (h : d.compileError = some .tooManyPredicates ∨ e.compileError = some .tooManyPredicates)
  | corresponds (error : e.compileError = d.compileError)
    (formula : d.formula.Corresponds t u e.formula)

namespace CanonicalIndex

variable {maxClauses : Nat} {t u : PredicateTable}

theorem compile_document (maxClauses : Nat) (d : Document) (t : PredicateTable) :
    (compile maxClauses d t).1.document = d := (compile_spec maxClauses d t).1

theorem agrees_compileTarget (imports : Imports) (limit : Nat) (target : Option Expression)
    (ht : t.IsDistinct) (hu : u.IsDistinct) :
    (compileTarget imports limit target t).Agrees (compileTarget imports limit target u) := by
  unfold compileTarget
  cases target with
  | none => exact .constant ht hu true
  | some e =>
    dsimp only
    split
    · exact ⟨ht, hu, .refused _⟩
    · exact e.agrees_compile imports limit ht hu

/-- What compiling a document leaves, and its formula. -/
theorem isDistinct_compile (maxClauses : Nat) (d : Document) (ht : t.IsDistinct) :
    (compile maxClauses d t).2.IsDistinct ∧ (compile maxClauses d t).1.formula.IsNormal := by
  have htarget := agrees_compileTarget d.imports maxClauses d.target ht ht
  unfold compile
  revert htarget
  rcases compileTarget d.imports maxClauses d.target t with ⟨e | f, t'⟩
  · exact fun h => ⟨h.left, Formula.isNormal_constant true⟩
  · rintro ⟨h, -, ⟨⟩⟩
    exact ⟨h, by assumption⟩

/-- Compiling a document over two tables. -/
theorem agree_compile (maxClauses : Nat) (d : Document) (ht : t.IsDistinct) (hu : u.IsDistinct) :
    IndexedDocument.Agree (compile maxClauses d t).2 (compile maxClauses d u).2
      (compile maxClauses d t).1 (compile maxClauses d u).1 := by
  have htarget := agrees_compileTarget d.imports maxClauses d.target ht hu
  unfold compile
  revert htarget
  rcases compileTarget d.imports maxClauses d.target t with ⟨r, t'⟩
  rcases compileTarget d.imports maxClauses d.target u with ⟨r', u'⟩
  rintro ⟨-, -, hagree⟩
  cases hagree with
  | exhausted_left => exact .exhausted (.inl rfl)
  | exhausted_right => exact .exhausted (.inr rfl)
  | refused e => exact .corresponds rfl (.constant true)
  | formulas hf h => exact .corresponds rfl h

end CanonicalIndex

namespace IndexedDocument

/-- A document as compiling it over some table without repetitions made it, under the numbers that its
predicates have in another table. -/
def IsCompiledIn (maxClauses : Nat) (t : PredicateTable) (d : IndexedDocument) : Prop :=
  ∃ s : PredicateTable, s.IsDistinct ∧
    (CanonicalIndex.compile maxClauses d.document s).1.compileError = d.compileError ∧
    (CanonicalIndex.compile maxClauses d.document s).1.formula.Corresponds
      (CanonicalIndex.compile maxClauses d.document s).2 t d.formula

variable {maxClauses : Nat} {t u : PredicateTable} {d e : IndexedDocument}

theorem isCompiledIn_compile (maxClauses : Nat) (d : Document) (ht : t.IsDistinct) :
    (CanonicalIndex.compile maxClauses d t).1.IsCompiledIn maxClauses
      (CanonicalIndex.compile maxClauses d t).2 := by
  have hlinked := (CanonicalIndex.compile_spec maxClauses d t).2.1
  refine ⟨t, ht, ?_⟩
  rw [CanonicalIndex.compile_document]
  exact ⟨rfl, .refl fun id hid => hlinked.lt hid⟩

theorem IsCompiledIn.lt (h : d.IsCompiledIn maxClauses t) {id : PredicateId}
    (hid : id ∈ d.formula.predicates) : id < t.size := by
  obtain ⟨s, -, -, r, hr, he⟩ := h
  rw [he] at hid
  obtain ⟨i, hi, rfl⟩ := Formula.mem_rename_predicates.1 hid
  exact (hr i hi).symm.lt

theorem IsCompiledIn.isNormal (h : d.IsCompiledIn maxClauses t) (ht : t.IsDistinct) :
    d.formula.IsNormal := by
  obtain ⟨s, hs, -, hf⟩ := h
  obtain ⟨hdistinct, hnormal⟩ := CanonicalIndex.isDistinct_compile maxClauses d.document hs
  exact hf.isNormal hdistinct ht hnormal

theorem IsCompiledIn.extend (h : d.IsCompiledIn maxClauses t) (hext : t.Extends u) :
    d.IsCompiledIn maxClauses u := by
  obtain ⟨s, hs, he, hf⟩ := h
  exact ⟨s, hs, he, hf.extend (.refl _) hext⟩

/-- Dropping predicates that the formula does not have gives the others new numbers only. -/
theorem IsCompiledIn.compact (h : d.IsCompiledIn maxClauses t) {live : OrderedSet PredicateId}
    (hlive : ∀ id ∈ d.formula.predicates, id ∈ live) :
    (d.rename (t.renumber live)).IsCompiledIn maxClauses (t.compacted live) := by
  have hlt (id : PredicateId) (hid : id ∈ d.formula.predicates) : id < t.size := h.lt hid
  obtain ⟨s, hs, he, hf⟩ := h
  exact ⟨s, hs, he, hf.trans
    ⟨_, fun id hid => PredicateTable.same_compacted (hlt id hid) (hlive id hid), rfl⟩⟩

/-- Two compiled forms of one document, in whatever tables. -/
theorem IsCompiledIn.agree (hd : d.IsCompiledIn maxClauses t) (he : e.IsCompiledIn maxClauses u)
    (hdoc : e.document = d.document) : d.Agree t u e := by
  obtain ⟨s, hs, hderr, hdf⟩ := hd
  obtain ⟨s', hs', heerr, hef⟩ := he
  rw [hdoc] at heerr hef
  cases CanonicalIndex.agree_compile maxClauses d.document hs hs' with
  | exhausted h =>
    rw [hderr, heerr] at h
    exact .exhausted h
  | corresponds herr hf =>
    refine .corresponds (heerr.symm.trans (herr.trans hderr)) ?_
    have hdistinct := (CanonicalIndex.isDistinct_compile maxClauses d.document hs).1
    exact ((hdf.symm hdistinct).trans hf).trans hef

end IndexedDocument

/-! ## Publications -/

namespace Publications

/-- The documents that survive the updates, compiled, over a table without repetitions. -/
structure IsTracked (maxClauses : Nat) (updates : List Update)
    (p : Publications PredicateTable IndexedDocument) : Prop where
  named : ∀ b ∈ p.documents.entries, b.2.document.name = b.1
  survives : ∀ d, (∃ b ∈ p.documents.entries, b.2.document = d) ↔ Update.Survives updates d
  distinct : p.state.IsDistinct
  compiled : ∀ b ∈ p.documents.entries, b.2.IsCompiledIn maxClauses p.state

variable {maxClauses : Nat} {updates : List Update} {u : Update}
  {p q : Publications PredicateTable IndexedDocument}

theorem IsTracked.apply (h : p.IsTracked maxClauses updates)
    (he : p.apply (CanonicalIndex.compile maxClauses) u = .ok q) :
    q.IsTracked maxClauses (updates ++ [u]) := by
  rcases apply_cases he with ⟨d, rfl, hfree, rfl⟩ | ⟨name, rfl, rfl⟩ | ⟨hu, hdocs, hstate⟩
  · have hext := (CanonicalIndex.compile_spec maxClauses d p.state).2.2.1
    have hentry {b : String × IndexedDocument} : b ∈ (p.documents.insert d.name
        (CanonicalIndex.compile maxClauses d p.state).1).entries ↔
        b = (d.name, (CanonicalIndex.compile maxClauses d p.state).1) ∨
          b ∈ p.documents.entries := by
      rw [SortedTable.mem_entries_insert_iff]
      exact or_congr_right (and_iff_left_of_imp (hfree b))
    constructor
    case named =>
      intro b hb
      rcases hentry.1 hb with rfl | hb
      · rw [CanonicalIndex.compile_document]
      · exact h.named b hb
    case survives =>
      intro e
      simp only [hentry, Update.survives_concat, ← h.survives e, reduceCtorEq, ne_eq,
        not_false_eq_true, and_true, Update.publish.injEq]
      constructor
      · rintro ⟨b, rfl | hb, rfl⟩
        · exact .inl (CanonicalIndex.compile_document maxClauses d p.state).symm
        · exact .inr ⟨b, hb, rfl⟩
      · rintro (rfl | ⟨b, hb, rfl⟩)
        · exact ⟨_, .inl rfl, CanonicalIndex.compile_document maxClauses d p.state⟩
        · exact ⟨b, .inr hb, rfl⟩
    case distinct => exact (CanonicalIndex.isDistinct_compile maxClauses d h.distinct).1
    case compiled =>
      intro b hb
      rcases hentry.1 hb with rfl | hb
      · exact IndexedDocument.isCompiledIn_compile maxClauses d h.distinct
      · exact (h.compiled b hb).extend hext
  · constructor
    case named => exact fun b hb => h.named b (SortedTable.mem_entries_erase.1 hb).1
    case survives =>
      intro e
      simp only [SortedTable.mem_entries_erase, Update.survives_concat, ← h.survives e,
        reduceCtorEq, false_or, ne_eq, Update.withdraw.injEq]
      constructor
      · rintro ⟨b, ⟨hb, hne⟩, rfl⟩
        exact ⟨⟨b, hb, rfl⟩, fun he => hne ((h.named b hb).symm.trans he.symm)⟩
      · rintro ⟨⟨b, hb, rfl⟩, hne⟩
        exact ⟨b, ⟨hb, fun he => hne (he.symm.trans (h.named b hb).symm)⟩, rfl⟩
    case distinct => exact h.distinct
    case compiled => exact fun b hb => h.compiled b (SortedTable.mem_entries_erase.1 hb).1
  · have hmark (d : Document) : Update.Survives (updates ++ [u]) d ↔ Update.Survives updates d := by
      rw [Update.survives_concat]
      rcases hu with rfl | rfl <;> simp
    obtain ⟨documents, state, consistent⟩ := q
    cases hdocs
    cases hstate
    exact ⟨h.named, fun d => (h.survives d).trans (hmark d).symm, h.distinct, h.compiled⟩

theorem IsTracked.compact (h : p.IsTracked maxClauses updates) :
    (CanonicalIndex.compact p).IsTracked maxClauses updates := by
  unfold CanonicalIndex.compact
  dsimp only
  split
  · constructor
    case named =>
      intro b hb
      obtain ⟨a, ha, rfl⟩ := SortedTable.mem_entries_map.1 hb
      exact h.named a ha
    case survives =>
      intro d
      rw [← h.survives d]
      constructor
      · rintro ⟨b, hb, rfl⟩
        obtain ⟨a, ha, rfl⟩ := SortedTable.mem_entries_map.1 hb
        exact ⟨a, ha, rfl⟩
      · rintro ⟨a, ha, rfl⟩
        exact ⟨_, SortedTable.mem_entries_map.2 ⟨a, ha, rfl⟩, rfl⟩
    case distinct => exact h.distinct.compacted _
    case compiled =>
      intro b hb
      obtain ⟨a, ha, rfl⟩ := SortedTable.mem_entries_map.1 hb
      exact (h.compiled a ha).compact fun id hid =>
        CanonicalIndex.mem_referenced.2 ⟨a, ha, hid⟩
  · exact h

end Publications

/-! ## Indexes -/

namespace CanonicalIndex

/-- An index that updates lead to: tracked publications without superfluous predicates, and their
tables. -/
structure IsTracked (maxClauses : Nat) (strategy : OrderStrategy) (updates : List Update)
    (index : CanonicalIndex) : Prop where
  compacted : ∃ p : Publications PredicateTable IndexedDocument,
    p.IsTracked maxClauses updates ∧ index.publications = compact p
  tables : index.tables = .build (formulas index.documents) strategy
  limit : index.maxClauses = maxClauses
  strategy : index.strategy = strategy

variable {maxClauses : Nat} {strategy : OrderStrategy} {updates : List Update}
  {index next : CanonicalIndex} {batch : UpdateBatch} {batches : List UpdateBatch}

theorem isTracked_empty (maxClauses : Nat) (strategy : OrderStrategy) :
    (empty maxClauses strategy).IsTracked maxClauses strategy [] where
  compacted := by
    refine ⟨⟨.empty, .empty, true⟩,
      ⟨nofun, fun d => ⟨nofun, ?_⟩, PredicateTable.isDistinct_empty, nofun⟩, rfl⟩
    rintro ⟨before, after, he, -⟩
    simp at he
  tables := (MatchingTables.build_nil strategy).symm
  limit := rfl
  strategy := rfl

theorem IsTracked.publications (h : index.IsTracked maxClauses strategy updates) :
    index.publications.IsTracked maxClauses updates := by
  obtain ⟨p, hp, he⟩ := h.compacted
  rw [he]
  exact hp.compact

theorem IsTracked.apply (h : index.IsTracked maxClauses strategy updates)
    (he : index.apply batch = .ok next) :
    next.IsTracked maxClauses strategy (updates ++ batch.updates) := by
  obtain ⟨p, hp, hpublications, htables, hlimit, hstrategy⟩ := apply_spec he
  rw [h.limit] at hp hlimit
  rw [h.strategy] at htables hstrategy
  have htracked := Publications.applyAll_induction updates
    (fun done p u q _ hp he => Publications.IsTracked.apply hp he) h.publications hp
  exact ⟨⟨p, htracked, hpublications⟩, htables, hlimit, hstrategy⟩

theorem isTracked_of_applyEach
    (h : (empty maxClauses strategy).applyEach batches = .ok index) :
    index.IsTracked maxClauses strategy (UpdateBatch.history batches) := by
  have hstep (done : List UpdateBatch) (index : CanonicalIndex) (batch : UpdateBatch)
      (next : CanonicalIndex) (_ : batch ∈ batches)
      (h : index.IsTracked maxClauses strategy (UpdateBatch.history done))
      (he : index.apply batch = .ok next) :
      next.IsTracked maxClauses strategy (UpdateBatch.history (done ++ [batch])) := by
    rw [UpdateBatch.history, List.flatMap_append, List.flatMap_singleton]
    exact h.apply he
  exact applyEach_induction []
    (motive := fun done index => index.IsTracked maxClauses strategy (UpdateBatch.history done))
    hstep (isTracked_empty maxClauses strategy) h

end CanonicalIndex

end PolicyDecision
