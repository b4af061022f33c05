import PolicyDecision.Proofs.Formula.Lattice
import PolicyDecision.Proofs.Formula.Truth

/-!
# PolicyDecision.Proofs.Formula.Subsumption

Subsumption as implication, and what can be made as what is normal.

Subsumption compares sets of literals. For normal clauses nothing is lost by that: a clause that is
not `false` can hold while every predicate that it does not mention makes another literal fail.

* `Clause.isSatisfied_iff_completed`: partial outcomes satisfy a clause if all assignments that
  complete them do.
* `Clause.IsNormal.subsumes_iff_implies`: a normal clause subsumes those that imply it.
* `Clause.IsNormal.ext`: normal clauses that the same assignments satisfy are the same clause.
* `Clause.isBuilt_iff`, `Formula.isBuilt_iff`: exactly the normal clauses and formulas can be made.
* `Formula.reduction_exact`: all of this, of clauses and formulas that can be made.
-/

namespace PolicyDecision

/-- The assignment that agrees with what is known and gives all other predicates one value. -/
def Outcomes.completed (o : Outcomes) (value : Bool) : Assignment := fun id => (o id).getD value

namespace Literal

variable {o : Outcomes} {l : Literal}

/-- The unknown predicate of a literal can take the value that makes it fail. -/
theorem truth?_iff_completed :
    l.truth? o = some true ↔ ∀ value, l.holds (o.completed value) = true := by
  cases l with
  | constant b => simp [truth?, holds, evaluate]
  | predicate id negated =>
    have hvalue (value : Bool) : (predicate id negated).holds (o.completed value) =
        ((o id).getD value != negated) := rfl
    simp only [hvalue, truth?]
    cases o id with
    | some b => simp
    | none =>
      refine iff_of_false (by simp) fun h => ?_
      have hneg := h negated
      simp at hneg

end Literal

namespace Clause

variable {a c : Clause} {o : Outcomes}

theorem isSatisfied_iff_completed :
    c.isSatisfied o = true ↔ ∀ value, c.holds (o.completed value) = true := by
  simp only [isSatisfied_iff, Literal.truth?_iff_completed, holds_iff]
  constructor
  · intro h value l hl
    exact h l hl value
  · intro h l hl value
    exact h value l hl

/-- A clause that is not `false` holds under every completion of the outcomes that it requires; if
another one holds under them too, it requires no more. -/
theorem IsNormal.subsumes_iff_implies (ha : a.IsNormal) (hc : c.IsNormal) :
    a.subsumes c = true ↔ ∀ assignment, c.holds assignment = true → a.holds assignment = true := by
  constructor
  · intro h assignment
    rw [← isSatisfied_total, ← isSatisfied_total]
    exact isSatisfied_of_subsumes h
  · intro h
    cases hfalse : c.isFalse with
    | true => exact subsumes_of_isFalse a hfalse
    | false =>
      have hself := hc.isSatisfied_outcomes_self hfalse
      refine (hc.subsumes_iff ha hfalse).2 (isSatisfied_iff_completed.2 fun value => ?_)
      exact h _ (isSatisfied_iff_completed.1 hself value)

/-- A proper clause is not satisfied by everything, nor by nothing. -/
theorem IsProper.exists_isSatisfied_ne (h : a.IsProper) (b : Bool) : ∃ o, a.isSatisfied o ≠ b := by
  cases b with
  | true => exact ⟨fun _ => none, by simp [h.isSatisfied_none]⟩
  | false => exact ⟨a.outcomes, by simp [(h.isSatisfied_outcomes h).2 fun l hl => hl]⟩

theorem IsNormal.subsumes_antisymm (ha : a.IsNormal) (hc : c.IsNormal)
    (hac : a.subsumes c = true) (hca : c.subsumes a = true) : a = c := by
  have hsame (o : Outcomes) : a.isSatisfied o = c.isSatisfied o :=
    Bool.eq_iff_iff.2 ⟨isSatisfied_of_subsumes hca, isSatisfied_of_subsumes hac⟩
  obtain ha | ⟨b, rfl⟩ := ha
  · obtain hc | ⟨b, rfl⟩ := hc
    · have hsub := (ha.subsumes_iff hc).1 hac
      have hsup := (hc.subsumes_iff ha).1 hca
      exact ext (congrArg OrderedSet.items (OrderedSet.ext fun l => ⟨hsub l, hsup l⟩))
    · obtain ⟨o, ho⟩ := ha.exists_isSatisfied_ne b
      exact (ho (by rw [hsame, isSatisfied_constant])).elim
  · obtain hc | ⟨b', rfl⟩ := hc
    · obtain ⟨o, ho⟩ := hc.exists_isSatisfied_ne b
      exact (ho (by rw [← hsame, isSatisfied_constant])).elim
    · have hb := hsame fun _ => none
      rw [isSatisfied_constant, isSatisfied_constant] at hb
      rw [hb]

theorem IsNormal.ext (ha : a.IsNormal) (hc : c.IsNormal)
    (h : ∀ assignment, a.holds assignment = c.holds assignment) : a = c := by
  refine ha.subsumes_antisymm hc ((ha.subsumes_iff_implies hc).2 ?_)
    ((hc.subsumes_iff_implies ha).2 ?_)
  · intro assignment
    exact (h assignment).trans
  · intro assignment
    exact (h assignment).symm.trans

theorem IsNormal.reduce_literals (h : c.IsNormal) : reduce c.literals = c :=
  (isNormal_reduce _).ext h fun _ => holds_reduce c.literals

end Clause

theorem OrderedSet.ofList_items {α : Type} [Ord α] [Std.TransOrd α] [Std.LawfulEqOrd α]
    (s : OrderedSet α) : ofList s.items = s :=
  ext fun _ => mem_ofList

theorem Clause.isBuilt_iff {c : Clause} : c.IsBuilt ↔ c.IsNormal := by
  refine ⟨IsBuilt.isNormal, fun h => ?_⟩
  have hreduce := h.reduce_literals
  obtain hc | ⟨b, rfl⟩ := h
  · obtain ⟨l, hl⟩ := hc.nonempty
    have hne : c.literals.items ≠ [] := List.ne_nil_of_mem hl
    have hmade : ofList? c.literals.items = .ok c := by
      rw [ofList?, if_neg (by simpa using hne), OrderedSet.ofList_items, hreduce]
    exact .ofList hmade
  · exact .constant b

namespace Formula

variable {f : Formula}

theorem IsNormal.reduce_clauses (h : f.IsNormal) : reduce f.clauses = f :=
  (isNormal_reduce h.clauses).ext h fun o => by
    rw [Bool.eq_iff_iff, isSatisfied_reduce, isSatisfied_iff]

theorem isBuilt_iff : f.IsBuilt ↔ f.IsNormal := by
  refine ⟨IsBuilt.isNormal, fun h => ?_⟩
  have hreduce := h.reduce_clauses
  have hclauses : ∀ c ∈ f.clauses, c.IsBuilt := fun c hc => Clause.isBuilt_iff.2 (h.clauses c hc)
  obtain hf | ⟨b, rfl⟩ := h
  · obtain ⟨c, hc⟩ := hf.nonempty
    have hne : f.clauses.items ≠ [] := List.ne_nil_of_mem hc
    have hmade : ofList? f.clauses.items = .ok f := by
      rw [ofList?, if_neg (by simpa using hne), OrderedSet.ofList_items, hreduce]
    exact .ofList hclauses hmade
  · exact .constant b

/-- Exactly the normal clauses and formulas can be made. Of two clauses that can be made the first
subsumes the second if and only if it holds wherever the second one does. -/
theorem reduction_exact :
    (∀ c : Clause, c.IsBuilt ↔ c.IsNormal) ∧
    (∀ a c : Clause, a.IsBuilt → c.IsBuilt →
      (a.subsumes c = true ↔
        ∀ assignment, c.holds assignment = true → a.holds assignment = true)) ∧
    ∀ f : Formula, f.IsBuilt ↔ f.IsNormal := by
  refine ⟨?_, ?_, ?_⟩
  · intro c
    exact Clause.isBuilt_iff
  · intro a c ha hc
    exact ha.isNormal.subsumes_iff_implies hc.isNormal
  · intro f
    exact isBuilt_iff

/-- The clause `p1 & !p2` implies `p1`, which does not imply it; and the negation of
`(p1 & !p2) | p3`, a product of negated clauses, is normal. -/
theorem reduction_exact_threePredicates :
    let p (id : PredicateId) : Clause := .ofLiteral (.ofPredicate id)
    let c : Clause := (p 1).and (.ofLiteral (.predicate 2 true))
    let f : Formula := (reduce (.ofList [c, p 3])).negate
    ((p 1).IsBuilt ∧ c.IsBuilt ∧ c.IsNormal) ∧
    ((p 1).subsumes c = true ∧
      ∀ assignment, c.holds assignment = true → (p 1).holds assignment = true) ∧
    (c.subsumes (p 1) = false ∧
      ∃ assignment, (p 1).holds assignment = true ∧ c.holds assignment = false) ∧
    f.IsBuilt ∧ f.IsNormal := by
  intro p c f
  obtain ⟨hclauses, hsubsumes, hformulas⟩ := reduction_exact
  have hp (id : PredicateId) : (p id).IsBuilt := .ofLiteral _
  have hc : c.IsBuilt := .and (hp 1) (.ofLiteral _)
  have hlist : ∀ d ∈ [c, p 3], d.IsBuilt := by simp [hc, hp]
  have hf : f.IsBuilt := .negate (.ofList hlist rfl)
  have hyes : (p 1).subsumes c = true := by decide
  have hno : c.subsumes (p 1) = false := by decide
  refine ⟨⟨hp 1, hc, (hclauses c).1 hc⟩, ⟨hyes, (hsubsumes _ _ (hp 1) hc).1 hyes⟩, ⟨hno, ?_⟩, hf,
    (hformulas f).1 hf⟩
  simpa using (hsubsumes _ _ hc (hp 1)).not.1 (Bool.eq_false_iff.1 hno)

end Formula
end PolicyDecision
