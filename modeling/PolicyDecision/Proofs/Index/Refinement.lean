import PolicyDecision.Index.Naive
import PolicyDecision.Proofs.Evaluation.Constant
import PolicyDecision.Proofs.Index.Retrieval
import PolicyDecision.Proofs.Syntax.Signature

/-!
# PolicyDecision.Proofs.Index.Refinement

The two kinds of indexes beside each other.

* `NaiveIndex.applyEach`: the naive index after several batches.
* `CanonicalIndex.mirrors_applyEach`: a naive index accepts the batches that a canonical one accepts, and then
  has the same documents.
* `CanonicalIndex.retrieve_refines`: where the target of a document has a truth value, the canonical index finds
  the document exactly if the target holds.
-/

namespace PolicyDecision

/-- The naive index after several batches, all of which are accepted. -/
def NaiveIndex.applyEach (index : NaiveIndex) : List UpdateBatch → Except Error NaiveIndex
  | [] => .ok index
  | batch :: rest =>
    match index.apply batch with
    | .ok index => index.applyEach rest
    | .error e => .error e

/-! ## The same documents -/

namespace Publications

/-- The documents of the first, with whatever they were compiled to. -/
structure Mirrors (p : Publications PredicateTable IndexedDocument)
    (q : Publications Unit Document) : Prop where
  documents : q.documents = p.documents.map (·.document)
  consistent : q.consistent = p.consistent

variable {p p' : Publications PredicateTable IndexedDocument} {q : Publications Unit Document}
  {maxClauses : Nat}

theorem Mirrors.apply (h : p.Mirrors q) {u : Update}
    (he : p.apply (CanonicalIndex.compile maxClauses) u = .ok p') :
    ∃ q', q.apply (fun d _ => (d, ())) u = .ok q' ∧ p'.Mirrors q' := by
  cases u with
  | publish d =>
    rw [Publications.apply] at he
    split at he
    · cases he
    · rename_i hnot
      cases he
      refine ⟨{ q with documents := q.documents.insert d.name d, state := () }, ?_, ?_, h.consistent⟩
      · rw [Publications.apply, h.documents, SortedTable.contains_map, if_neg hnot]
      · show q.documents.insert d.name d = (p.documents.insert d.name
          (CanonicalIndex.compile maxClauses d p.state).1).map (·.document)
        rw [SortedTable.map_insert, h.documents,
          (CanonicalIndex.compile_spec maxClauses d p.state).1]
  | withdraw name =>
    cases he
    refine ⟨_, rfl, ?_, h.consistent⟩
    rw [SortedTable.map_erase, h.documents]
  | markConsistent =>
    cases he
    exact ⟨_, rfl, h.documents, rfl⟩
  | markInconsistent =>
    cases he
    exact ⟨_, rfl, h.documents, rfl⟩

theorem Mirrors.applyAll (h : p.Mirrors q) {updates : List Update}
    (he : p.applyAll (CanonicalIndex.compile maxClauses) updates = .ok p') :
    ∃ q', q.applyAll (fun d _ => (d, ())) updates = .ok q' ∧ p'.Mirrors q' := by
  induction updates generalizing p q with
  | nil =>
    cases he
    exact ⟨q, rfl, h⟩
  | cons u rest ih =>
    rw [Publications.applyAll] at he
    split at he
    · rename_i r hr
      obtain ⟨q', hq', h'⟩ := h.apply hr
      rw [Publications.applyAll, hq']
      exact ih h' he
    · cases he

theorem Mirrors.compact (h : p.Mirrors q) : (CanonicalIndex.compact p).Mirrors q := by
  unfold CanonicalIndex.compact
  dsimp only
  split
  · refine ⟨?_, h.consistent⟩
    rw [h.documents]
    refine SortedTable.ext ?_
    simp [IndexedDocument.rename, Function.comp_def]
  · exact h

end Publications

namespace NaiveIndex

variable {index : NaiveIndex}

theorem retrieve_matching (hc : index.consistent = true) (evaluate : PredicateEvaluator) :
    (index.retrieve evaluate).matching = index.documents.values.filter fun d =>
      (outcome evaluate d).1.toOption == some true := by
  simp [retrieve, hc, List.filter_map, Function.comp_def]

theorem retrieve_errorOccurred (hc : index.consistent = true) (evaluate : PredicateEvaluator) :
    (index.retrieve evaluate).errorOccurred = index.documents.values.any fun d =>
      (outcome evaluate d).1.toOption.isNone := by
  simp [retrieve, hc, List.any_map, Function.comp_def]

end NaiveIndex

namespace CanonicalIndex

variable {index next : CanonicalIndex} {naive : NaiveIndex} {batches : List UpdateBatch}

/-- A naive index accepts the batches that a canonical one accepts, and keeps the same documents. -/
theorem mirrors_applyEach (h : index.publications.Mirrors naive.publications)
    (he : index.applyEach batches = .ok next) :
    ∃ naive', naive.applyEach batches = .ok naive' ∧
      next.publications.Mirrors naive'.publications := by
  induction batches generalizing index naive with
  | nil =>
    cases he
    exact ⟨naive, rfl, h⟩
  | cons batch rest ih =>
    rw [CanonicalIndex.applyEach] at he
    split at he
    · rename_i index' hindex
      obtain ⟨p, hp, hpublications, -⟩ := apply_spec hindex
      obtain ⟨q, hq, hmirrors⟩ := h.applyAll hp
      rw [NaiveIndex.applyEach, NaiveIndex.apply, hq]
      refine ih ?_ he
      rw [hpublications]
      exact hmirrors.compact
    · cases he

end CanonicalIndex

/-! ## The same truth values -/

theorem Expression.verdict_congr {imports : Imports} {truth truth' : Expression → Option Bool}
    (e : Expression) (h : ∀ l ∈ e.leaves imports, truth l = truth' l) :
    e.verdict imports truth = e.verdict imports truth' := by
  induction e using Expression.leaves.induct with
  | case1 b => rfl
  | case2 inner ih =>
    rw [verdict, verdict, ih h]
  | case3 operand ih =>
    rw [leaves] at h
    rw [verdict, verdict, ih h]
  | case4 left right ihl ihr | case5 left right ihl ihr | case6 left right ihl ihr
  | case7 left right ihl ihr =>
    simp only [leaves, List.forall_mem_append] at h
    rw [verdict, verdict, ihl h.1, ihr h.2]
  | case8 op left right hand heagerAnd hor heagerOr =>
    rw [leaves, List.forall_mem_singleton] at h
    · rw [verdict, verdict, h] <;> assumption
    all_goals assumption
  | case9 e hbool hgroup hnot hbinary =>
    rw [leaves, List.forall_mem_singleton] at h
    · rw [verdict, verdict, h] <;> assumption
    all_goals assumption

/-- A target has a truth value where all of its leaves have one. -/
theorem Expression.isSome_verdict {imports : Imports} {truth : Expression → Option Bool}
    (e : Expression) (h : ∀ l ∈ e.leaves imports, (truth l).isSome = true) :
    (e.verdict imports truth).isSome = true := by
  have hlazy (deciding : Bool) {x y : Option Bool} (hx : x.isSome = true) (hy : y.isSome = true) :
      (lazyVerdict deciding x y).isSome = true := by
    obtain ⟨a, rfl⟩ := Option.isSome_iff_exists.1 hx
    by_cases ha : a = deciding <;> simp [lazyVerdict, ha, hy]
  have heager (f : Bool → Bool → Bool) {x y : Option Bool} (hx : x.isSome = true)
      (hy : y.isSome = true) : (x.bind fun a => y.map (f a)).isSome = true := by
    obtain ⟨a, rfl⟩ := Option.isSome_iff_exists.1 hx
    simpa using hy
  induction e using Expression.leaves.induct with
  | case1 b => rfl
  | case2 inner ih => exact ih h
  | case3 operand ih =>
    rw [verdict, Option.isSome_map]
    exact ih h
  | case4 left right ihl ihr =>
    simp only [leaves, List.forall_mem_append] at h
    exact hlazy false (ihl h.1) (ihr h.2)
  | case5 left right ihl ihr =>
    simp only [leaves, List.forall_mem_append] at h
    exact heager _ (ihl h.1) (ihr h.2)
  | case6 left right ihl ihr =>
    simp only [leaves, List.forall_mem_append] at h
    exact hlazy true (ihl h.1) (ihr h.2)
  | case7 left right ihl ihr =>
    simp only [leaves, List.forall_mem_append] at h
    exact heager _ (ihl h.1) (ihr h.2)
  | case8 op left right hand heagerAnd hor heagerOr =>
    rw [leaves, List.forall_mem_singleton] at h
    · rw [verdict] <;> assumption
    all_goals assumption
  | case9 e hbool hgroup hnot hbinary =>
    rw [leaves, List.forall_mem_singleton] at h
    · rw [verdict] <;> assumption
    all_goals assumption

theorem Document.isSome_verdict {truth : Expression → Option Bool} (d : Document)
    (h : ∀ l ∈ d.leaves, (truth l).isSome = true) : (d.verdict truth).isSome = true := by
  unfold Document.leaves at h
  unfold Document.verdict
  cases ht : d.target with
  | none => rfl
  | some e =>
    simp only [ht] at h
    exact e.isSome_verdict h

namespace CanonicalIndex

/-- Truth values of the known predicates that depend on the signature only. -/
theorem exists_signatureTruth {known : Expression → Prop} {truth : Expression → Option Bool}
    (h : ∀ p q, known p → known q → p.signature = q.signature → truth p = truth q) :
    ∃ signed : String → Option Bool, ∀ p, known p → signed p.signature = truth p := by
  classical
  refine ⟨fun s => if hs : ∃ p, known p ∧ p.signature = s then truth hs.choose else none, ?_⟩
  intro p hp
  have hs : ∃ q, known q ∧ q.signature = p.signature := ⟨p, hp, rfl⟩
  dsimp only
  rw [dif_pos hs]
  exact h _ _ hs.choose_spec.1 hp hs.choose_spec.2

variable {index : CanonicalIndex} {known : Expression → Prop} {ctx : Context}

/-- The outcome of the target of a document, if it does not fail. -/
theorem outcome_toOption (ctx : Context) (d : Document) :
    (NaiveIndex.outcome (targetEvaluator ctx) d).1.toOption = d.verdict (targetTruth ctx) := by
  unfold NaiveIndex.outcome Document.resolvedTarget? Document.verdict
  cases d.target with
  | none => rfl
  | some e => exact targetTruth_eq_verdict ctx d.imports e

/-- The formula of a document confirms the outcome of its target. -/
theorem IsCoherent.decides_target (h : index.IsCoherent known)
    (hknown : ∀ p q, known p → known q → p.signature = q.signature →
      targetTruth ctx p = targetTruth ctx q)
    {d : IndexedDocument} (hd : d ∈ index.documents.values) (hc : d.compileError = none) :
    d.formula.Decides (index.predicates.outcomes (targetEvaluator ctx))
      (NaiveIndex.outcome (targetEvaluator ctx) d.document).1.toOption := by
  obtain ⟨signed, hsigned⟩ := exists_signatureTruth hknown
  obtain ⟨b, hb, rfl⟩ := List.mem_map.1 hd
  have houtcomes : index.predicates.outcomes (targetEvaluator ctx) =
      index.predicates.signed signed := by
    funext id
    unfold PredicateTable.outcomes PredicateTable.signed
    cases hid : index.predicates.get? id with
    | none => rfl
    | some p =>
      exact (hsigned p (h.publications.predicates p (List.mem_of_getElem? hid))).symm
  have hverdict : b.2.document.verdict (targetTruth ctx) =
      b.2.document.verdict fun l => signed l.signature := by
    have hleaves := h.publications.leaves b hb
    unfold Document.leaves at hleaves
    unfold Document.verdict
    cases ht : b.2.document.target with
    | none => rfl
    | some e =>
      simp only [ht] at hleaves
      exact e.verdict_congr fun l hl => (hsigned l (hleaves l hl)).symm
  rw [outcome_toOption, hverdict, houtcomes]
  exact (h.publications.linked b hb).decides hc signed

/-- Where the target of a document has a truth value, the document is found if and only if the target
holds. -/
theorem IsCoherent.mem_found_iff (h : index.IsCoherent known)
    (hknown : ∀ p q, known p → known q → p.signature = q.signature →
      targetTruth ctx p = targetTruth ctx q)
    {d : IndexedDocument} (hd : d ∈ index.documents.values) (hc : d.compileError = none) {b : Bool}
    (hb : (NaiveIndex.outcome (targetEvaluator ctx) d.document).1.toOption = some b) :
    d ∈ index.found (targetEvaluator ctx) ↔ b = true := by
  have hdecides := h.decides_target hknown hd hc
  rw [mem_found, and_iff_right hd]
  cases b with
  | true => simp [hdecides.satisfied hb]
  | false => simp [Formula.not_isSatisfied_of_isViolated (hdecides.violated hb)]

/-- Documents are told apart by their names. -/
theorem IsCoherent.eq_of_document_eq (h : index.IsCoherent known) {d d' : IndexedDocument}
    (hd : d ∈ index.documents.values) (hd' : d' ∈ index.documents.values)
    (he : d.document = d'.document) : d = d' := by
  obtain ⟨b, hb, rfl⟩ := List.mem_map.1 hd
  obtain ⟨b', hb', rfl⟩ := List.mem_map.1 hd'
  have hname := h.publications.named b hb
  rw [he, h.publications.named b' hb'] at hname
  rw [SortedTable.eq_of_key_eq hb hb' hname.symm]

theorem IsCoherent.mem_matching_iff (h : index.IsCoherent known) (hc : index.consistent = true)
    {evaluate : PredicateEvaluator} {d : IndexedDocument} (hd : d ∈ index.documents.values) :
    d.document ∈ (index.retrieve evaluate).matching ↔ d ∈ index.found evaluate := by
  rw [h.retrieve_eq hc]
  dsimp only
  rw [List.mem_map]
  constructor
  · rintro ⟨d', hd', he⟩
    rwa [← h.eq_of_document_eq (mem_found.1 hd').1 hd he]
  · intro hfound
    exact ⟨d, hfound, rfl⟩

/-- If all leaves of all documents have a truth value, no probe fails. -/
theorem IsCoherent.isSome_probes (h : index.IsCoherent known)
    (hknown : ∀ p q, known p → known q → p.signature = q.signature →
      targetTruth ctx p = targetTruth ctx q)
    (hleaves : ∀ d ∈ index.documents.values, ∀ l ∈ d.document.leaves,
      (targetTruth ctx l).isSome = true) {q : Probe}
    (hq : q ∈ (index.tables.run index.predicates (targetEvaluator ctx)).probes) :
    q.outcome.toOption.isSome = true := by
  obtain ⟨hout, d, hd, id, hid, hget⟩ := h.mem_probes_run hq
  obtain ⟨b, hb, rfl⟩ := List.mem_map.1 hd
  obtain ⟨p, hp, l, hl, hsig⟩ := (h.publications.linked b hb).linked id hid
  have hp : index.predicates.get? id = some p := hp
  obtain rfl : p = q.predicate := Option.some.inj (hp.symm.trans hget)
  have htruth := hknown _ l (h.publications.predicates _ (List.mem_of_getElem? hget))
    (h.publications.leaves b hb l hl) hsig
  have hsome : (targetTruth ctx q.predicate).isSome = true := by
    rw [htruth]
    exact hleaves b.2 hd l hl
  rw [hout]
  exact hsome

/-- The canonical index is a sound refinement of the naive one, which accepts the same batches, as long
as published predicates that differ only in the key order of their literals have the same truth value.
A document whose target holds is found, and one whose target does not hold is not. Both find the same
documents if the naive retrieval reports no error, and neither reports one if every predicate of every
target has a truth value. -/
theorem retrieve_refines {maxClauses : Nat} {strategy : OrderStrategy} {batches : List UpdateBatch}
    (hindex : (empty maxClauses strategy).applyEach batches = .ok index)
    (hc : index.consistent = true) (ctx : Context)
    (hkeys : ∀ d ∈ published batches, ∀ p ∈ d.leaves, ∀ d' ∈ published batches, ∀ q ∈ d'.leaves,
      p.sortLiterals = q.sortLiterals → targetTruth ctx p = targetTruth ctx q) :
    ∃ naive, NaiveIndex.empty.applyEach batches = .ok naive ∧
      naive.documents = index.documents.map (·.document) ∧
      (∀ d ∈ index.documents.values, d.compileError = none →
        ((NaiveIndex.outcome (targetEvaluator ctx) d.document).1 = .ok true →
          d.document ∈ (index.retrieve (targetEvaluator ctx)).matching) ∧
        ((NaiveIndex.outcome (targetEvaluator ctx) d.document).1 = .ok false →
          d.document ∉ (index.retrieve (targetEvaluator ctx)).matching)) ∧
      ((∀ d ∈ index.documents.values, d.compileError = none) →
        (naive.retrieve (targetEvaluator ctx)).errorOccurred = false →
        (index.retrieve (targetEvaluator ctx)).matching =
          (naive.retrieve (targetEvaluator ctx)).matching) ∧
      ((∀ d ∈ index.documents.values, d.compileError = none) →
        (∀ d ∈ index.documents.values, ∀ l ∈ d.document.leaves,
          (targetTruth ctx l).isSome = true) →
        (naive.retrieve (targetEvaluator ctx)).errorOccurred = false ∧
          (index.retrieve (targetEvaluator ctx)).errorOccurred = false) := by
  have h := isCoherent_of_applyEach hindex
  have hknown : ∀ p q, (∃ d ∈ published batches, p ∈ d.leaves) →
      (∃ d ∈ published batches, q ∈ d.leaves) → p.signature = q.signature →
      targetTruth ctx p = targetTruth ctx q := by
    rintro p q ⟨d, hd, hp⟩ ⟨d', hd', hq⟩ hsig
    exact hkeys d hd p hp d' hd' q hq (Expression.signature_eq_iff.1 hsig)
  obtain ⟨naive, hnaive, hmirrors⟩ :=
    mirrors_applyEach (⟨rfl, rfl⟩ :
      (empty maxClauses strategy).publications.Mirrors NaiveIndex.empty.publications) hindex
  have hdocs : naive.documents = index.documents.map (·.document) := hmirrors.documents
  have hconsistent : naive.consistent = true := hmirrors.consistent.trans hc
  have hvalues : naive.documents.values = index.documents.values.map (·.document) := by
    rw [hdocs, SortedTable.values_map]
  refine ⟨naive, hnaive, hdocs, fun d hd he => ⟨fun ho => ?_, fun ho => ?_⟩, fun he hok => ?_,
    fun he hleaves => ⟨?_, ?_⟩⟩
  · exact (h.mem_matching_iff hc hd).2 ((h.mem_found_iff hknown hd he (by rw [ho]; rfl)).2 rfl)
  · rw [h.mem_matching_iff hc hd, h.mem_found_iff hknown hd he (b := false) (by rw [ho]; rfl)]
    exact Bool.false_ne_true
  · have hsome : ∀ d ∈ index.documents.values,
        (NaiveIndex.outcome (targetEvaluator ctx) d.document).1.toOption.isSome = true := by
      rw [NaiveIndex.retrieve_errorOccurred hconsistent, hvalues, List.any_map,
        List.any_eq_false] at hok
      simpa [Option.isSome_iff_ne_none] using hok
    rw [NaiveIndex.retrieve_matching hconsistent, hvalues, List.filter_map, h.retrieve_eq hc]
    show (index.found (targetEvaluator ctx)).map (·.document) = _
    refine congrArg _ (List.filter_congr fun d hd => ?_)
    obtain ⟨b, hb⟩ := Option.isSome_iff_exists.1 (hsome d hd)
    have hiff := h.mem_found_iff hknown hd (he d hd) hb
    rw [mem_found, and_iff_right hd] at hiff
    rw [Bool.eq_iff_iff, hiff, Function.comp_apply, hb]
    simp
  · rw [NaiveIndex.retrieve_errorOccurred hconsistent, hvalues, List.any_map, List.any_eq_false]
    intro d hd
    obtain ⟨b, hb⟩ := Option.isSome_iff_exists.1 (d.document.isSome_verdict (hleaves d hd))
    simp [outcome_toOption ctx d.document, hb]
  · rw [h.retrieve_eq hc]
    have hfailed : (index.tables.run index.predicates (targetEvaluator ctx)).failed = false := by
      refine List.any_eq_false.2 fun q hq => ?_
      obtain ⟨b, hb⟩ := Option.isSome_iff_exists.1 (h.isSome_probes hknown hleaves hq)
      simp [hb]
    have herroneous : (index.found (targetEvaluator ctx)).filter (fun d =>
        d.compileError.isSome) = [] :=
      List.filter_eq_nil_iff.2 fun d hd => by simp [he d (mem_found.1 hd).1]
    simp [hfailed, herroneous]

end CanonicalIndex

/-! ## An office by day -/

namespace Office

/-- By day nobody of the staff is there. -/
def day (alarm : Val) : Context :=
  { bindings := [("staff", .ofBool false), ("night", .ofBool false), ("alarm", alarm)] }

theorem sortLiterals_leaf {d : Document} (hd : d ∈ CanonicalIndex.published batches) {p : Expression}
    (hp : p ∈ d.leaves) : p.sortLiterals = p := by
  have hleaves : (CanonicalIndex.published batches).flatMap Document.leaves =
      ["draft", "staff", "alarm", "staff", "staff", "night", "alarm"].map Expression.identifier := rfl
  obtain ⟨name, -, rfl⟩ := List.mem_map.1 (hleaves ▸ List.mem_flatMap.2 ⟨d, hd, hp⟩)
  rfl

end Office

/-- An undefined alarm leaves open what the desk is worth, but not the other two documents. With an alarm
all are decided. -/
theorem CanonicalIndex.retrieve_refines_office :
    ∃ index, (empty 2 Office.order).applyEach Office.batches = .ok index ∧ index.consistent = true ∧
      Office.lobby ∈ (index.retrieve (targetEvaluator (Office.day .undefined))).matching ∧
      Office.vault ∉ (index.retrieve (targetEvaluator (Office.day .undefined))).matching ∧
      (index.retrieve (targetEvaluator (Office.day (.ofBool true)))).matching =
        [Office.desk, Office.lobby] := by
  have hindex : (empty 2 Office.order).applyEach Office.batches = .ok _ := rfl
  have hkeys (ctx : Context) : ∀ d ∈ published Office.batches, ∀ p ∈ d.leaves,
      ∀ d' ∈ published Office.batches, ∀ q ∈ d'.leaves, p.sortLiterals = q.sortLiterals →
        targetTruth ctx p = targetTruth ctx q := by
    intro d hd p hp d' hd' q hq he
    rw [Office.sortLiterals_leaf hd hp, Office.sortLiterals_leaf hd' hq] at he
    rw [he]
  obtain ⟨-, -, -, hdecided, -⟩ := retrieve_refines hindex rfl (Office.day .undefined) (hkeys _)
  obtain ⟨naive, hnaive, -, -, hsame, -⟩ :=
    retrieve_refines hindex rfl (Office.day (.ofBool true)) (hkeys _)
  cases hnaive
  refine ⟨_, hindex, rfl, (hdecided _ (.tail _ (.head _)) rfl).1 rfl,
    (hdecided _ (.tail _ (.tail _ (.head _))) rfl).2 rfl, ?_⟩
  rw [hsame (by decide) rfl]
  rfl

end PolicyDecision
