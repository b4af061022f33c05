import PolicyDecision.Proofs.Formula.Verdict

/-!
# PolicyDecision.Proofs.Formula.Truth

What the operations on literals, clauses and formulas do to truth under an assignment.

Every operation reduces its result: constants collapse, contradictory clauses become `false`, and
absorbed clauses and repeated literals disappear. None of this shows in the truth values.

* `Clause.holds_reduce`, `Formula.holds_reduce`: reducing changes no truth value.
* `Clause.holds_and`, `Formula.holds_and`, `holds_or`, `holds_negate`, `holds_rename`: the operations.
* `Formula.holds_homomorphism`: formulas with these operations map to the booleans with theirs.
-/

namespace PolicyDecision

variable {a : Assignment}

/-! ## Literals -/

namespace Literal

theorem holds_negate (l : Literal) : l.negate.holds a = !l.holds a := by
  have h := truth?_negate (l := l) (o := fun id => some (a id))
  rw [truth?_total, truth?_total] at h
  exact Option.some.inj h

theorem holds_rename (r : PredicateId → PredicateId) (l : Literal) :
    (l.rename r).holds a = l.holds fun id => a (r id) := by
  cases l <;> rfl

end Literal

/-! ## Clauses -/

namespace Clause

theorem holds_iff {c : Clause} : c.holds a = true ↔ ∀ l ∈ c.literals, l.holds a = true :=
  OrderedSet.all_iff

theorem holds_reduce (s : OrderedSet Literal) : (reduce s).holds a = s.all (Literal.holds a) := by
  rw [← isSatisfied_total, Bool.eq_iff_iff, isSatisfied_reduce, OrderedSet.all_iff]
  simp [Literal.truth?_total]

/-- A clause of some literals holds exactly when all of them do. -/
theorem holds_ofList (literals : List Literal) :
    (reduce (.ofList literals)).holds a = literals.all (Literal.holds a) := by
  rw [holds_reduce, Bool.eq_iff_iff, OrderedSet.all_iff, List.all_eq_true]
  simp only [OrderedSet.mem_ofList]

theorem holds_and (c d : Clause) : (c.and d).holds a = (c.holds a && d.holds a) := by
  rw [and, holds_reduce, Bool.eq_iff_iff, OrderedSet.all_iff, Bool.and_eq_true, holds_iff, holds_iff]
  simp only [OrderedSet.mem_union]
  constructor
  · intro h
    exact ⟨fun l hl => h l (.inl hl), fun l hl => h l (.inr hl)⟩
  · rintro ⟨hc, hd⟩ l (hl | hl)
    · exact hc l hl
    · exact hd l hl

theorem holds_rename (r : PredicateId → PredicateId) (c : Clause) :
    (c.rename r).holds a = c.holds fun id => a (r id) := by
  rw [← isSatisfied_total, ← isSatisfied_total, isSatisfied_rename]

end Clause

/-! ## Formulas -/

namespace Formula

theorem holds_iff {f : Formula} : f.holds a = true ↔ ∃ c ∈ f.clauses, c.holds a = true :=
  OrderedSet.any_iff

theorem holds_reduce (s : OrderedSet Clause) : (reduce s).holds a = s.any (Clause.holds a) := by
  rw [← isSatisfied_total, Bool.eq_iff_iff, isSatisfied_reduce, OrderedSet.any_iff]
  simp only [Clause.isSatisfied_total]

/-- A formula of some clauses holds exactly when one of them does. -/
theorem holds_ofList (clauses : List Clause) :
    (reduce (.ofList clauses)).holds a = clauses.any (Clause.holds a) := by
  rw [holds_reduce, Bool.eq_iff_iff, OrderedSet.any_iff, List.any_eq_true]
  simp only [OrderedSet.mem_ofList]

theorem holds_and (f g : Formula) : (f.and g).holds a = (f.holds a && g.holds a) := by
  rw [← isSatisfied_total, ← isSatisfied_total, ← isSatisfied_total, Bool.eq_iff_iff,
    Bool.and_eq_true]
  exact isSatisfied_and

theorem holds_or (f g : Formula) : (f.or g).holds a = (f.holds a || g.holds a) := by
  rw [← isSatisfied_total, ← isSatisfied_total, ← isSatisfied_total, Bool.eq_iff_iff,
    Bool.or_eq_true]
  exact isSatisfied_or

/-- Under a full assignment a clause is violated where it does not hold. -/
theorem isViolated_total (f : Formula) : f.isViolated (fun id => some (a id)) = !f.holds a := by
  have hclause (c : Clause) : c.isViolated (fun id => some (a id)) = !c.holds a := by
    rw [Bool.eq_iff_iff, Clause.isViolated_iff, Bool.not_eq_true', ← Bool.not_eq_true,
      Clause.holds_iff]
    simp [Literal.truth?_total]
  rw [Bool.eq_iff_iff, isViolated_iff, Bool.not_eq_true', ← Bool.not_eq_true, holds_iff]
  simp [hclause]

theorem holds_negate (f : Formula) : f.negate.holds a = !f.holds a := by
  rw [← isSatisfied_total, isSatisfied_negate, isViolated_total]

theorem holds_rename (r : PredicateId → PredicateId) (f : Formula) :
    (f.rename r).holds a = f.holds fun id => a (r id) := by
  rw [← isSatisfied_total, ← isSatisfied_total, isSatisfied_rename]

/-- Truth under an assignment turns the operations on literals, clauses and formulas into those on
booleans. A renaming need not be injective for that; it is for the renamed formula to stay
reduced. -/
theorem holds_homomorphism (a : Assignment) :
    (∀ f g : Formula, (f.and g).holds a = (f.holds a && g.holds a) ∧
      (f.or g).holds a = (f.holds a || g.holds a) ∧ f.negate.holds a = !f.holds a) ∧
    (∀ b : Bool, (constant b).holds a = b) ∧
    (∀ (c : Clause) (rest : List Clause), ∃ f, ofList? (c :: rest) = .ok f ∧
      f.holds a = (c :: rest).any fun d => d.literals.items.all (Literal.holds a)) ∧
    (∀ (l : Literal) (rest : List Literal), ∃ c, Clause.ofList? (l :: rest) = .ok c ∧
      c.holds a = (l :: rest).all (Literal.holds a)) ∧
    (∀ c d : Clause, (c.and d).holds a =
      (c.literals.items ++ d.literals.items).all (Literal.holds a)) ∧
    (∀ (r : PredicateId → PredicateId), (∀ f : Formula, (f.rename r).holds a = f.holds (a ∘ r)) ∧
      (∀ c : Clause, (c.rename r).holds a = c.holds (a ∘ r)) ∧
      ∀ l : Literal, (l.rename r).holds a = l.holds (a ∘ r)) ∧
    ∀ l : Literal, l.negate.holds a = !l.holds a := by
  refine ⟨fun f g => ⟨holds_and f g, holds_or f g, holds_negate f⟩, ?_, ?_, ?_, ?_, ?_,
    Literal.holds_negate⟩
  · intro b
    rw [← isSatisfied_total, isSatisfied_constant]
  · intro c rest
    exact ⟨_, rfl, holds_ofList (c :: rest)⟩
  · intro l rest
    exact ⟨_, rfl, Clause.holds_ofList (l :: rest)⟩
  · intro c d
    rw [Clause.holds_and, List.all_append]
    rfl
  · intro r
    exact ⟨holds_rename r, Clause.holds_rename r, Literal.holds_rename r⟩

end Formula
end PolicyDecision
