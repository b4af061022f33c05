import PolicyDecision.Proofs.Index.Reachable
import PolicyDecision.Syntax.Build

/-!
# PolicyDecision.Proofs.Index.Retrieval

What retrievals from the canonical index find.

* `CanonicalIndex.found`: the documents whose formula is satisfied.
* `CanonicalIndex.IsCoherent.matchedDocuments_run`: a run matches exactly these.
* `CanonicalIndex.retrieve_exact`: they are the result of a retrieval, whatever the strategy and the
  evaluator do.
* `Office`: an index with shared clauses, a withdrawn document and a predicate that fails.
-/

namespace PolicyDecision
namespace CanonicalIndex

/-- The documents whose formula has a clause all of whose literals hold. -/
def found (index : CanonicalIndex) (evaluate : PredicateEvaluator) : List IndexedDocument :=
  index.documents.values.filter fun d => d.formula.isSatisfied (index.predicates.outcomes evaluate)

variable {known : Expression → Prop} {index : CanonicalIndex} {evaluate : PredicateEvaluator}

theorem mem_found {d : IndexedDocument} : d ∈ index.found evaluate ↔
    d ∈ index.documents.values ∧
      d.formula.isSatisfied (index.predicates.outcomes evaluate) = true := List.mem_filter

/-- Looking up the keys of some entries gives their values. -/
theorem filterMap_get? {α : Type} {t : SortedTable α} {entries : List (String × α)}
    (h : ∀ b ∈ entries, b ∈ t.entries) :
    (entries.map (·.1)).filterMap t.get? = entries.map (·.2) := by
  induction entries with
  | nil => rfl
  | cons b rest ih =>
    have hb : t.get? b.1 = some b.2 := SortedTable.get?_eq_some_iff.2 (h b (.head _))
    rw [List.map_cons, List.filterMap_cons, hb, List.map_cons, ih fun a ha => h a (.tail _ ha)]

namespace IsCoherent

theorem matchedDocuments_run (h : index.IsCoherent known) (evaluate : PredicateEvaluator) :
    index.matchedDocuments (index.tables.run index.predicates evaluate) = index.found evaluate := by
  have hmatched := MatchingTables.matched_layout index.strategy evaluate h.closed
  rw [← h.tables] at hmatched
  have hkeys : ((formulas index.documents).filter fun d =>
      d.2.isSatisfied (index.predicates.outcomes evaluate)).map (·.1) =
      (index.documents.entries.filter fun d =>
        d.2.formula.isSatisfied (index.predicates.outcomes evaluate)).map (·.1) := by
    simp [formulas, List.filter_map, Function.comp_def]
  rw [matchedDocuments, hmatched, hkeys, filterMap_get? fun b hb => (List.mem_filter.1 hb).1]
  simp [found, SortedTable.values, List.filter_map, Function.comp_def]

/-- A document that could not be compiled is always found. -/
theorem mem_found_of_compileError (h : index.IsCoherent known) {d : IndexedDocument}
    (hd : d ∈ index.documents.values) (he : d.compileError.isSome = true) :
    d ∈ index.found evaluate := by
  obtain ⟨b, hb, rfl⟩ := List.mem_map.1 hd
  refine mem_found.2 ⟨hd, ?_⟩
  rw [(h.publications.linked b hb).always he, Formula.isSatisfied_constant]

/-- The names of what is found stand in ascending order, so no document is found twice. -/
theorem names_found_ascending (h : index.IsCoherent known) (evaluate : PredicateEvaluator) :
    ((index.found evaluate).map (·.document.name)).Pairwise (· < ·) := by
  have hall : (index.documents.values.map (·.document.name)).Pairwise (· < ·) := by
    have hnames : index.documents.values.map (·.document.name) = index.documents.keys :=
      values_map_name h.publications.named
    rw [hnames]
    exact index.documents.keys_ascending
  exact hall.sublist (List.filter_sublist.map _)

/-- Every probe asks the evaluator for a predicate of the table. -/
theorem mem_probes_run (h : index.IsCoherent known) {q : Probe}
    (hq : q ∈ (index.tables.run index.predicates evaluate).probes) :
    q.outcome = evaluate q.predicate ∧
      ∃ d ∈ index.documents.values, ∃ id ∈ d.formula.predicates,
        index.predicates.get? id = some q.predicate := by
  obtain ⟨k, seen, hrun, -⟩ := MatchingTables.exists_runsTo_layout index.strategy evaluate h.closed
  rw [← h.tables] at hrun
  obtain ⟨hout, id, hid, hget⟩ := hrun.probes q hq
  rw [h.tables, MatchingTables.mem_layout_order_iff] at hid
  obtain ⟨b, hb, c, hc, hmem⟩ := hid
  obtain ⟨a, ha, rfl⟩ := List.mem_map.1 hb
  exact ⟨hout, a.2, List.mem_map_of_mem ha, id,
    Formula.mem_predicates.2 ⟨c, (MatchingTables.mem_satisfiable.1 hc).1, hmem⟩, hget⟩

/-- The retrieval of a consistent index, by what it finds. -/
theorem retrieve_eq (h : index.IsCoherent known) (hc : index.consistent = true)
    (evaluate : PredicateEvaluator) :
    index.retrieve evaluate =
      let erroneous := (index.found evaluate).filter fun d => d.compileError.isSome
      let r := index.tables.run index.predicates evaluate
      { matching := (index.found evaluate).map (·.document)
        errorOccurred := r.failed || !erroneous.isEmpty
        consistent := true
        erroneous := erroneous.map (·.document.name)
        probes := r.probes } := by
  simp [retrieve, hc, h.matchedDocuments_run]

end IsCoherent

/-- A retrieval returns, in the order of their names, exactly the documents whose formula has a
clause all of whose literals hold. The erroneous ones are those of them that could not be compiled,
and all such documents are among them. An error is reported if a predicate failed that was evaluated,
or if some document is erroneous. Where every predicate has a truth value, truth of the formula
decides. -/
theorem retrieve_exact {maxClauses : Nat} {strategy : OrderStrategy} {batches : List UpdateBatch}
    (hindex : (empty maxClauses strategy).applyEach batches = .ok index)
    (hc : index.consistent = true) (evaluate : PredicateEvaluator) :
    (index.retrieve evaluate).matching = (index.found evaluate).map (·.document) ∧
      (index.retrieve evaluate).names.Pairwise (· < ·) ∧
      (index.retrieve evaluate).erroneous =
        ((index.found evaluate).filter fun d => d.compileError.isSome).map (·.document.name) ∧
      (∀ d ∈ index.documents.values, d.compileError.isSome → d ∈ index.found evaluate) ∧
      ((index.retrieve evaluate).errorOccurred = true ↔
        (∃ q ∈ (index.retrieve evaluate).probes, q.outcome.toOption = none) ∨
          (index.retrieve evaluate).erroneous ≠ []) ∧
      (∀ q ∈ (index.retrieve evaluate).probes, q.outcome = evaluate q.predicate ∧
        ∃ d ∈ index.documents.values, ∃ id ∈ d.formula.predicates,
          index.predicates.get? id = some q.predicate) ∧
      ∀ a : Assignment,
        (∀ id p, index.predicates.get? id = some p → evaluate p = .ok (a id)) →
        ∀ d ∈ index.documents.values, d ∈ index.found evaluate ↔ d.formula.holds a = true := by
  have h := isCoherent_of_applyEach hindex
  simp only [h.retrieve_eq hc, Retrieval.names, List.map_map]
  refine ⟨trivial, h.names_found_ascending evaluate, trivial,
    fun d hd he => h.mem_found_of_compileError hd he, ?_, fun q hq => h.mem_probes_run hq, ?_⟩
  · simp [MatchRun.failed]
  · intro a ha d hd
    obtain ⟨b, hb, rfl⟩ := List.mem_map.1 hd
    have hlinked := h.publications.linked b hb
    have houtcomes (id : PredicateId) (hid : id ∈ b.2.formula.predicates) :
        index.predicates.outcomes evaluate id = some (a id) := by
      obtain ⟨p, hp, -⟩ := hlinked.linked id hid
      have hp : index.predicates.get? id = some p := hp
      rw [PredicateTable.outcomes, hp, Option.bind_some, ha id p hp]
      rfl
    rw [mem_found, ← Formula.isSatisfied_total, and_iff_right hd]
    rw [Formula.isSatisfied_congr houtcomes]

end CanonicalIndex

/-! ## An office -/

namespace Office

def permit (name : String) (target : Expression) : Document :=
  { name, entitlement := .permit, target := some target }

def desk : Document := permit "desk" (.or (.identifier "staff") (.identifier "alarm"))

def lobby : Document := permit "lobby" (.not (.identifier "staff"))

def vault : Document :=
  permit "vault" (.or (.identifier "staff") (.and (.identifier "night") (.identifier "alarm")))

/-- The draft has the first number, so the others get new ones when it is withdrawn. The desk and the vault
share a clause, and all three share predicates. -/
def batches : List UpdateBatch :=
  [⟨[.publish (permit "draft" (.identifier "draft")), .publish desk, .publish lobby, .publish vault]⟩,
    ⟨[.withdraw "draft"]⟩]

/-- An order with an unknown number and a repeated one, without the others. -/
def order : OrderStrategy := fun _ => [7, 1, 1]

/-- The alarm does not answer. -/
def answer : PredicateEvaluator
  | .basic (.identifier "staff") [] none => .ok false
  | .basic (.identifier "night") [] none => .ok true
  | _ => .error (.predicateFailed "no answer")

end Office

/-- The alarm is asked first and fails. The lobby is found nevertheless, since nobody of the staff is there. -/
theorem CanonicalIndex.retrieve_exact_office :
    ∃ index, (empty 2 Office.order).applyEach Office.batches = .ok index ∧ index.consistent = true ∧
      (index.retrieve Office.answer).matching = [Office.lobby] ∧
      (index.retrieve Office.answer).errorOccurred = true := by
  have hindex : (empty 2 Office.order).applyEach Office.batches = .ok _ := rfl
  obtain ⟨hmatching, -, -, -, herror, -⟩ := retrieve_exact hindex rfl Office.answer
  exact ⟨_, hindex, rfl, hmatching.trans rfl, herror.2 (.inl ⟨_, .head _, rfl⟩)⟩

end PolicyDecision
