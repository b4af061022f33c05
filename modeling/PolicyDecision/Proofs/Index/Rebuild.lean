import PolicyDecision.Proofs.Index.Capacity
import PolicyDecision.Proofs.Index.WellFormed

/-!
# PolicyDecision.Proofs.Index.Rebuild

An index is the one that its documents alone would make.

The updates so far decide the numbers of the predicates, with them the order of the clauses, and with
that the order of evaluation. None of this can be seen in what the index says.

* `Publications.exists_applyAll_publish`: documents with different names can be published together.
* `Publications.IsTracked.exists_counterpart`: what survives is compiled alike after different updates.
* `CanonicalIndex.IsRebuilding`: one index is the other one under other numbers.
* `CanonicalIndex.rebuild_agrees`: publishing the documents of an index anew rebuilds it.
-/

namespace PolicyDecision

/-! ## Publishing documents together -/

theorem Update.survives_publish {documents : List Document} {d : Document} :
    Survives (documents.map publish) d ↔ d ∈ documents := by
  constructor
  · rintro ⟨before, after, he, -⟩
    have hmem : publish d ∈ documents.map publish := by
      rw [he]
      exact List.mem_append_right _ (.head _)
    obtain ⟨e, he, hd⟩ := List.mem_map.1 hmem
    rwa [← Update.publish.inj hd]
  · intro hd
    obtain ⟨before, after, rfl⟩ := List.append_of_mem hd
    exact ⟨before.map publish, after.map publish, by simp, by simp⟩

namespace Publications

variable {σ α : Type} {compile : Document → σ → α × σ} {documents : List Document}

/-- Documents with different names that are not in use are accepted. -/
theorem exists_applyAll_publish (hnames : documents.Pairwise fun d e => d.name ≠ e.name)
    (p : Publications σ α) (hfree : ∀ d ∈ documents, ∀ b ∈ p.documents.entries, b.1 ≠ d.name) :
    ∃ q, p.applyAll compile (documents.map .publish) = .ok q ∧ q.consistent = p.consistent := by
  induction documents generalizing p with
  | nil => exact ⟨p, rfl, rfl⟩
  | cons d rest ih =>
    obtain ⟨hd, hrest⟩ := List.pairwise_cons.1 hnames
    have hnot : ¬ p.documents.contains d.name = true := fun h => by
      obtain ⟨b, hb, he⟩ := SortedTable.contains_iff.1 h
      exact hfree d (.head _) b hb he
    rw [List.map_cons, applyAll, apply, if_neg hnot]
    refine ih hrest _ fun e he b hb => ?_
    rcases SortedTable.mem_entries_insert hb with rfl | hb
    · exact hd e he
    · exact hfree e (.tail _ he) b hb

/-! ## Counterparts -/

variable {maxClauses : Nat} {updates updates' : List Update}
  {p q : Publications PredicateTable IndexedDocument}

/-- The published documents have different names. -/
theorem IsTracked.name_injective (h : p.IsTracked maxClauses updates) {d e : Document}
    (hd : Update.Survives updates d) (he : Update.Survives updates e) (hname : d.name = e.name) :
    d = e := by
  obtain ⟨a, ha, rfl⟩ := (h.survives d).2 hd
  obtain ⟨b, hb, rfl⟩ := (h.survives e).2 he
  rw [h.named a ha, h.named b hb] at hname
  rw [SortedTable.eq_of_key_eq ha hb hname]

/-- Where other updates leave the same documents, each of them has a counterpart under its name. -/
theorem IsTracked.exists_counterpart (hp : p.IsTracked maxClauses updates)
    (hq : q.IsTracked maxClauses updates')
    (hsame : ∀ d, Update.Survives updates d ↔ Update.Survives updates' d)
    {a : String × IndexedDocument} (ha : a ∈ p.documents.entries) :
    ∃ b ∈ q.documents.entries, b.1 = a.1 ∧ b.2.document = a.2.document ∧
      a.2.Agree p.state q.state b.2 := by
  obtain ⟨b, hb, hdoc⟩ := (hq.survives _).2 ((hsame _).1 ((hp.survives _).1 ⟨a, ha, rfl⟩))
  refine ⟨b, hb, ?_, hdoc, (hp.compiled a ha).agree (hq.compiled b hb) hdoc⟩
  rw [← hq.named b hb, ← hp.named a ha, hdoc]

/-- Where other updates leave the same documents, they stand in the same order. -/
theorem IsTracked.documents_eq (hp : p.IsTracked maxClauses updates)
    (hq : q.IsTracked maxClauses updates')
    (hsame : ∀ d, Update.Survives updates d ↔ Update.Survives updates' d) :
    q.documents.map (·.document) = p.documents.map (·.document) := by
  refine SortedTable.eq_map (fun a ha => ?_) fun c hc => ?_
  · obtain ⟨b, hb, hname, hdoc, -⟩ := hp.exists_counterpart hq hsame ha
    rw [← hname, ← hdoc]
    exact SortedTable.mem_entries_map.2 ⟨b, hb, rfl⟩
  · obtain ⟨b, hb, rfl⟩ := SortedTable.mem_entries_map.1 hc
    obtain ⟨a, ha, hname, -⟩ := hq.exists_counterpart hp (fun d => (hsame d).symm) hb
    exact ⟨a, ha, hname⟩

end Publications

/-- Documents that agree are one up to the numbers of the predicates, unless one of them was
refused for want of numbers. -/
theorem IndexedDocument.Agree.eq_rename {t u : PredicateTable} {d e : IndexedDocument}
    (h : d.Agree t u e) (hu : u.IsDistinct) (hdoc : e.document = d.document)
    (hd : d.compileError ≠ some .tooManyPredicates)
    (he : e.compileError ≠ some .tooManyPredicates) :
    (∀ id ∈ d.formula.predicates, t.Same u id (t.translate u id)) ∧
      e = d.rename (t.translate u) := by
  cases h with
  | exhausted h => exact absurd h (not_or.2 ⟨hd, he⟩)
  | corresponds herr hf =>
    obtain ⟨hsame, hformula⟩ := hf.eq_translate hu
    refine ⟨hsame, ?_⟩
    obtain ⟨document, formula, error⟩ := e
    cases hdoc
    cases herr
    cases hformula
    rfl

/-- Predicates of one signature are evaluated alike; both may fail. -/
def PredicateEvaluator.IsUniform (evaluate : PredicateEvaluator) : Prop :=
  ∀ p q : Expression, p.signature = q.signature → (evaluate p).toOption = (evaluate q).toOption

namespace CanonicalIndex

/-- The second index is the first one under other numbers for the same predicates. -/
structure IsRebuilding (index fresh : CanonicalIndex) (r : PredicateId → PredicateId) : Prop where
  bijective : Set.BijOn r {id | id < index.predicates.size} {id | id < fresh.predicates.size}
  same : ∀ id, id < index.predicates.size → index.predicates.Same fresh.predicates id (r id)
  documents : fresh.documents = index.documents.map (.rename r)

variable {maxClauses : Nat} {strategy strategy' : OrderStrategy} {updates updates' : List Update}
  {index fresh : CanonicalIndex} {r : PredicateId → PredicateId} {batches : List UpdateBatch}

/-- Indexes that updates lead to, where these leave the same documents. -/
theorem IsTracked.isRebuilding (h : index.IsTracked maxClauses strategy updates)
    (h' : fresh.IsTracked maxClauses strategy' updates')
    (hsame : ∀ d, Update.Survives updates d ↔ Update.Survives updates' d)
    (hindex : ¬ index.IsExhausted) (hfresh : ¬ fresh.IsExhausted) :
    index.IsRebuilding fresh (index.predicates.translate fresh.predicates) := by
  have hp : index.publications.IsTracked maxClauses updates := h.publications
  have hq : fresh.publications.IsTracked maxClauses updates' := h'.publications
  have hcounterpart {a : String × IndexedDocument} (ha : a ∈ index.documents.entries) :
      ∃ b ∈ fresh.documents.entries, b.1 = a.1 ∧
        (∀ id ∈ a.2.formula.predicates, index.predicates.Same fresh.predicates id
          (index.predicates.translate fresh.predicates id)) ∧
        b.2 = a.2.rename (index.predicates.translate fresh.predicates) := by
    obtain ⟨b, hb, hname, hdoc, hagree⟩ := hp.exists_counterpart hq hsame ha
    exact ⟨b, hb, hname, hagree.eq_rename hq.distinct hdoc
      (fun he => hindex ⟨_, List.mem_map_of_mem ha, he⟩)
      (fun he => hfresh ⟨_, List.mem_map_of_mem hb, he⟩)⟩
  have hdocuments : fresh.documents =
      index.documents.map (.rename (index.predicates.translate fresh.predicates)) := by
    refine SortedTable.eq_map (fun a ha => ?_) fun c hc => ?_
    · obtain ⟨b, hb, hname, -, hb'⟩ := hcounterpart ha
      rwa [← hname, ← hb']
    · obtain ⟨a, ha, hname, -⟩ := hq.exists_counterpart hp (fun d => (hsame d).symm) hc
      exact ⟨a, ha, hname⟩
  have hnumbers (id : PredicateId) (hid : id < index.predicates.size) :
      index.predicates.Same fresh.predicates id
        (index.predicates.translate fresh.predicates id) := by
    obtain ⟨x, hx, hid⟩ := (h.isWellFormed.referenced id).1 hid
    obtain ⟨a, ha, rfl⟩ := List.mem_map.1 hx
    obtain ⟨b, hb, -, hnumbers, -⟩ := hcounterpart ha
    exact hnumbers id hid
  refine ⟨⟨fun id hid => (hnumbers id hid).symm.lt, fun i hi j hj he => ?_, fun j hj => ?_⟩,
    hnumbers, hdocuments⟩
  · exact (hnumbers i hi).injective hp.distinct (he ▸ hnumbers j hj)
  · obtain ⟨y, hy, hj⟩ := (h'.isWellFormed.referenced j).1 hj
    rw [hdocuments, SortedTable.values_map] at hy
    obtain ⟨x, hx, rfl⟩ := List.mem_map.1 hy
    obtain ⟨i, hi, rfl⟩ := Formula.mem_rename_predicates.1 hj
    exact ⟨i, (h.isWellFormed.referenced i).2 ⟨x, hx, hi⟩, rfl⟩

/-! ## Retrievals -/

variable {evaluate : PredicateEvaluator} {known known' : Expression → Prop}

theorem IsRebuilding.found_eq (h : index.IsRebuilding fresh r)
    (hlt : ∀ x ∈ index.documents.values, ∀ id ∈ x.formula.predicates, id < index.predicates.size)
    (he : PredicateEvaluator.IsUniform evaluate) :
    fresh.found evaluate = (index.found evaluate).map (.rename r) := by
  rw [found, h.documents, SortedTable.values_map, List.filter_map, found]
  refine congrArg (List.map _) (List.filter_congr fun x hx => ?_)
  have hcorresponds : x.formula.Corresponds index.predicates fresh.predicates
      (x.formula.rename r) := ⟨r, fun id hid => h.same id (hlt x hx id hid), rfl⟩
  refine hcorresponds.isSatisfied_eq ?_
  rintro i j ⟨p, q, hp, hq, hsig⟩
  rw [PredicateTable.outcomes, PredicateTable.outcomes, hp, hq]
  exact he p q hsig

theorem IsRebuilding.retrieve_eq (h : index.IsRebuilding fresh r)
    (hcoherent : index.IsCoherent known) (hcoherent' : fresh.IsCoherent known')
    (hc : index.consistent = true) (hc' : fresh.consistent = true)
    (he : PredicateEvaluator.IsUniform evaluate) :
    (fresh.retrieve evaluate).matching = (index.retrieve evaluate).matching ∧
      (fresh.retrieve evaluate).erroneous = (index.retrieve evaluate).erroneous := by
  have hfound : fresh.found evaluate = (index.found evaluate).map (.rename r) := by
    refine h.found_eq (fun x hx id hid => ?_) he
    obtain ⟨b, hb, rfl⟩ := List.mem_map.1 hx
    exact (hcoherent.publications.linked b hb).lt hid
  rw [hcoherent.retrieve_eq hc, hcoherent'.retrieve_eq hc', hfound]
  constructor
  · simp [Function.comp_def, IndexedDocument.rename]
  · simp [List.filter_map, Function.comp_def, IndexedDocument.rename]

/-! ## Rebuilding -/

theorem mem_published_of_survives {d : Document}
    (h : Update.Survives (UpdateBatch.history batches) d) : d ∈ published batches := by
  obtain ⟨before, after, hhistory, -⟩ := h
  have hmem : Update.publish d ∈ UpdateBatch.history batches := by
    rw [hhistory]
    exact List.mem_append_right _ (.head _)
  obtain ⟨batch, hbatch, hpublish⟩ := List.mem_flatMap.1 hmem
  exact List.mem_flatMap.2 ⟨batch, hbatch, Update.mem_published.2 hpublish⟩

theorem exists_apply_publish (maxClauses : Nat) (strategy : OrderStrategy)
    {documents : List Document} (hnames : documents.Pairwise fun d e => d.name ≠ e.name) :
    ∃ fresh, (empty maxClauses strategy).apply ⟨documents.map .publish⟩ = .ok fresh ∧
      fresh.consistent = true := by
  obtain ⟨p, hp, hconsistent⟩ : ∃ p, (empty maxClauses strategy).publications.applyAll
      (compile maxClauses) (documents.map .publish) = .ok p ∧ p.consistent = true :=
    Publications.exists_applyAll_publish hnames _ fun _ _ _ hb => absurd hb List.not_mem_nil
  have hcompact : (compact p).consistent = p.consistent := by
    unfold compact
    dsimp only
    split <;> rfl
  have happly : (empty maxClauses strategy).publications.applyAll
      (compile (empty maxClauses strategy).maxClauses) (documents.map .publish) = .ok p := hp
  rw [CanonicalIndex.apply, happly]
  exact ⟨_, rfl, hcompact.trans hconsistent⟩

/-- Publishing the documents of an index in one batch, in whatever order and under whatever strategy,
rebuilds the index. The documents are the same. So are the error and the formula of a document, unless
one of the two indexes had no numbers left for its predicates, which takes more leaves in the published
documents than there are numbers. If that happened to no document, the indexes differ by the numbers of
the predicates only, and where the same predicates are evaluated alike, retrievals from both find the
same. -/
theorem rebuild_agrees (hindex : (empty maxClauses strategy).applyEach batches = .ok index)
    {order : List Document} (hnodup : order.Nodup)
    (horder : ∀ d, d ∈ order ↔ Update.Survives (UpdateBatch.history batches) d)
    (strategy' : OrderStrategy) :
    ∃ fresh, (empty maxClauses strategy').apply ⟨order.map .publish⟩ = .ok fresh ∧
      fresh.consistent = true ∧
      fresh.documents.map (·.document) = index.documents.map (·.document) ∧
      (∀ x ∈ index.documents.values, ∀ y ∈ fresh.documents.values, y.document = x.document →
        x.Agree index.predicates fresh.predicates y) ∧
      (∀ known : List Expression, known.length ≤ PredicateTable.capacity →
        (∀ d ∈ published batches, ∀ l ∈ d.leaves, l ∈ known) →
        ¬ index.IsExhausted ∧ ¬ fresh.IsExhausted) ∧
      (¬ index.IsExhausted → ¬ fresh.IsExhausted →
        (∃ r, index.IsRebuilding fresh r) ∧
        ∀ evaluate, PredicateEvaluator.IsUniform evaluate → index.consistent = true →
          (fresh.retrieve evaluate).matching = (index.retrieve evaluate).matching ∧
          (fresh.retrieve evaluate).erroneous = (index.retrieve evaluate).erroneous) := by
  have htracked := isTracked_of_applyEach hindex
  have hp : index.publications.IsTracked maxClauses (UpdateBatch.history batches) :=
    htracked.publications
  have hnames : order.Pairwise fun d e => d.name ≠ e.name :=
    hnodup.imp_of_mem fun {d e} hd he hne hname =>
      hne (hp.name_injective ((horder d).1 hd) ((horder e).1 he) hname)
  obtain ⟨fresh, hfresh, hc'⟩ := exists_apply_publish maxClauses strategy' hnames
  have heach : (empty maxClauses strategy').applyEach [⟨order.map .publish⟩] = .ok fresh := by
    rw [applyEach, hfresh]
    rfl
  have htracked' := isTracked_of_applyEach heach
  have hsame (d : Document) : Update.Survives (UpdateBatch.history batches) d ↔
      Update.Survives (UpdateBatch.history [⟨order.map .publish⟩]) d := by
    have hone : UpdateBatch.history [⟨order.map .publish⟩] = order.map .publish :=
      List.flatMap_singleton ..
    rw [hone, Update.survives_publish, horder]
  have hq : fresh.publications.IsTracked maxClauses _ := htracked'.publications
  refine ⟨fresh, hfresh, hc', hp.documents_eq hq hsame, ?_, fun known hsize hknown => ⟨?_, ?_⟩,
    fun hx hy => ?_⟩
  · intro x hx y hy hdoc
    obtain ⟨a, ha, rfl⟩ := List.mem_map.1 hx
    obtain ⟨b, hb, rfl⟩ := List.mem_map.1 hy
    exact (hp.compiled a ha).agree (hq.compiled b hb) hdoc
  · exact not_isExhausted_of_applyEach hsize hknown hindex
  · refine not_isExhausted_of_applyEach hsize (fun d hd => hknown d ?_) heach
    rw [published, List.flatMap_singleton, Update.mem_published] at hd
    obtain ⟨e, he, hed⟩ := List.mem_map.1 hd
    rw [← Update.publish.inj hed]
    exact mem_published_of_survives ((horder e).1 he)
  · have hrebuilding := htracked.isRebuilding htracked' hsame hx hy
    exact ⟨⟨_, hrebuilding⟩, fun evaluate he hc => hrebuilding.retrieve_eq
      (isCoherent_of_applyEach hindex) (isCoherent_of_applyEach heach) hc hc' he⟩

/-- A document that applies where the variable `flag` is true. -/
def flagDocument : Document :=
  { name := "flag", entitlement := .permit, target := some (.basic (.identifier "flag") [] none) }

/-- A document that applies where the variable `grant` is true. -/
def grantDocument : Document :=
  { name := "grant", entitlement := .permit, target := some (.basic (.identifier "grant") [] none) }

/-- Another document comes first and is withdrawn, so that the predicate moves. -/
def supersedingBatches : List UpdateBatch :=
  [(UpdateBatch.publish {} grantDocument).publish flagDocument, UpdateBatch.withdraw {} "grant"]

theorem rebuild_agrees_supersedingBatches :
    ∃ index fresh, (empty 1 fun _ => [7]).applyEach supersedingBatches = .ok index ∧
      (empty 1 definitionOrder).apply ⟨[.publish flagDocument]⟩ = .ok fresh ∧
      (fresh.retrieve fun _ => .ok true).matching =
        (index.retrieve fun _ => .ok true).matching := by
  have hindex : (empty 1 fun _ => [7]).applyEach supersedingBatches = .ok _ := rfl
  have hsurvives (d : Document) :
      d ∈ [flagDocument] ↔ Update.Survives (UpdateBatch.history supersedingBatches) d := by
    refine Iff.trans ?_ ((isTracked_of_applyEach hindex).publications.survives d)
    constructor
    · exact fun hd => ⟨_, .head _, (List.mem_singleton.1 hd).symm⟩
    · rintro ⟨b, hb, rfl⟩
      cases List.mem_singleton.1 hb
      exact .head _
  obtain ⟨fresh, hfresh, -, -, -, -, h⟩ :=
    rebuild_agrees hindex (List.nodup_singleton flagDocument) hsurvives definitionOrder
  obtain rfl := Except.ok.inj hfresh
  refine ⟨_, _, hindex, hfresh, ((h ?_ ?_).2 _ (fun p q _ => rfl) rfl).1⟩
  all_goals
    rintro ⟨x, hx, he⟩
    cases List.mem_singleton.1 hx
    cases he

end CanonicalIndex
end PolicyDecision
