import PolicyDecision.Proofs.Formula.Verdict

/-!
# PolicyDecision.Proofs.Formula.Reduced

Clauses that say nothing superfluous.

A clause is reduced when the literal `false` stands only in the clause `false`, and no predicate
stands beside its negation. Bits for the positions of the predicates and for the required truth
values describe such a clause completely.

* `Clause.isReduced_reduce`: reducing a clause makes it so.
* `Formula.isReduced_and`, `IsReduced.or`, `isReduced_negate`: the connectives keep it.
* `Formula.IsReduced.rename`: renaming keeps it while different predicates stay different.
* `Formula.mem_predicates_of_and`, `mem_predicates_of_or`, `mem_predicates_of_negate`: the connectives add no
  predicates.
-/

namespace PolicyDecision

namespace Clause

structure IsReduced (c : Clause) : Prop where
  isFalse_of_mem : .constant false ∈ c.literals → c.isFalse = true
  no_complement : ∀ id, .predicate id true ∈ c.literals → .predicate id false ∉ c.literals

variable {c : Clause}

theorem isReduced_constant (b : Bool) : (constant b).IsReduced where
  isFalse_of_mem h := by
    have := OrderedSet.mem_singleton.1 h
    cases this
    rfl
  no_complement id h := by
    have := OrderedSet.mem_singleton.1 h
    cases this

theorem isReduced_reduce (s : OrderedSet Literal) : (reduce s).IsReduced := by
  unfold reduce
  split
  · exact isReduced_constant false
  · dsimp only
    split
    · exact isReduced_constant true
    · split
      · exact isReduced_constant false
      · rename_i hc
        constructor
        case isFalse_of_mem =>
          intro h
          have := (OrderedSet.mem_filter.1 h).2
          simp [Literal.constant?] at this
        case no_complement =>
          intro id hn hp
          refine hc (OrderedSet.any_iff.2 ⟨_, hn, ?_⟩)
          simpa [Literal.isNegated, Literal.negate, OrderedSet.contains_iff] using hp

theorem mem_predicates {id : PredicateId} :
    id ∈ c.predicates ↔ ∃ negated, .predicate id negated ∈ c.literals := by
  simp only [predicates, List.mem_filterMap]
  constructor
  · rintro ⟨l, hl, hid⟩
    cases l with
    | constant b => cases hid
    | predicate i n =>
      obtain rfl : i = id := Option.some.inj hid
      exact ⟨n, hl⟩
  · rintro ⟨n, hl⟩
    exact ⟨_, hl, rfl⟩

theorem not_mem_predicates_constant {id : PredicateId} (b : Bool) :
    id ∉ (constant b).predicates := by
  simp [constant, predicates, OrderedSet.singleton, Literal.predicate?]

/-- Reducing a clause adds no predicates. -/
theorem mem_predicates_of_reduce {s : OrderedSet Literal} {id : PredicateId}
    (h : id ∈ (reduce s).predicates) : ∃ negated, .predicate id negated ∈ s := by
  unfold reduce at h
  split at h
  · exact absurd h (not_mem_predicates_constant false)
  · dsimp only at h
    split at h
    · exact absurd h (not_mem_predicates_constant true)
    · split at h
      · exact absurd h (not_mem_predicates_constant false)
      · obtain ⟨negated, hl⟩ := mem_predicates.1 h
        exact ⟨negated, (OrderedSet.mem_filter.1 hl).1⟩

theorem isReduced_ofLiteral (l : Literal) : (ofLiteral l).IsReduced := isReduced_reduce _

theorem isReduced_and (a b : Clause) : (a.and b).IsReduced := isReduced_reduce _

theorem mem_rename_predicate {f : PredicateId → PredicateId} {id : PredicateId} {negated : Bool} :
    .predicate id negated ∈ (c.rename f).literals ↔
      ∃ i, .predicate i negated ∈ c.literals ∧ f i = id := by
  simp only [rename, OrderedSet.mem_image]
  constructor
  · rintro ⟨l, hl, he⟩
    cases l with
    | constant b => cases he
    | predicate i n =>
      simp only [Literal.rename, Literal.predicate.injEq] at he
      obtain ⟨hi, rfl⟩ := he
      exact ⟨i, hl, hi⟩
  · rintro ⟨i, hl, rfl⟩
    exact ⟨_, hl, rfl⟩

theorem rename_constant (f : PredicateId → PredicateId) (b : Bool) :
    (constant b).rename f = constant b := by
  cases b <;> rfl

theorem IsReduced.rename {f : PredicateId → PredicateId} (h : c.IsReduced)
    (hf : ∀ i ∈ c.predicates, ∀ j ∈ c.predicates, f i = f j → i = j) :
    (c.rename f).IsReduced where
  isFalse_of_mem hm := by
    simp only [Clause.rename, OrderedSet.mem_image] at hm
    obtain ⟨l, hl, he⟩ := hm
    cases l with
    | constant b =>
      cases he
      rw [eq_of_isFalse (h.isFalse_of_mem hl), rename_constant]
      rfl
    | predicate i n => cases he
  no_complement id hn hp := by
    obtain ⟨i, hi, rfl⟩ := mem_rename_predicate.1 hn
    obtain ⟨j, hj, he⟩ := mem_rename_predicate.1 hp
    obtain rfl := hf j (mem_predicates.2 ⟨_, hj⟩) i (mem_predicates.2 ⟨_, hi⟩) he
    exact h.no_complement j hi hj

end Clause

namespace Formula

def IsReduced (f : Formula) : Prop := ∀ c ∈ f.clauses, c.IsReduced

variable {f g : Formula}

theorem isReduced_constant (b : Bool) : (constant b).IsReduced := fun c hc => by
  rw [OrderedSet.mem_singleton.1 hc]
  exact Clause.isReduced_constant b

theorem isReduced_reduce {s : OrderedSet Clause} (h : ∀ c ∈ s, c.IsReduced) :
    (reduce s).IsReduced := by
  unfold reduce
  split
  · exact isReduced_constant true
  · dsimp only
    split
    · exact isReduced_constant false
    · intro c hc
      exact h c (OrderedSet.mem_filter.1 (mem_absorb.1 hc).1).1

theorem isReduced_ofLiteral (l : Literal) : (ofLiteral l).IsReduced :=
  isReduced_reduce fun c hc => by
    rw [OrderedSet.mem_singleton.1 hc]
    exact Clause.isReduced_ofLiteral l

theorem isReduced_and (f g : Formula) : (f.and g).IsReduced :=
  isReduced_reduce fun c hc => by
    obtain ⟨a, _, b, _, rfl⟩ := mem_pairs.1 hc
    exact Clause.isReduced_and a b

theorem IsReduced.or (hf : f.IsReduced) (hg : g.IsReduced) : (f.or g).IsReduced :=
  isReduced_reduce fun c hc => (OrderedSet.mem_union.1 hc).elim (hf c) (hg c)

theorem isReduced_ofNegatedClause (c : Clause) : (ofNegatedClause c).IsReduced :=
  isReduced_reduce fun d hd => by
    obtain ⟨l, _, rfl⟩ := mem_negatedLiterals.1 hd
    exact Clause.isReduced_ofLiteral _

theorem IsReduced.foldl_and (h : f.IsReduced) (fs : List Formula) :
    (fs.foldl Formula.and f).IsReduced := by
  induction fs generalizing f with
  | nil => exact h
  | cons g rest ih => exact ih (isReduced_and f g)

theorem isReduced_negate (f : Formula) : f.negate.IsReduced := by
  have hmem (g : Formula) (hg : g ∈ f.clauses.items.map ofNegatedClause) : g.IsReduced := by
    obtain ⟨c, _, rfl⟩ := List.mem_map.1 hg
    exact isReduced_ofNegatedClause c
  unfold negate
  split
  · exact isReduced_constant true
  · rename_i first rest he
    exact IsReduced.foldl_and (hmem first (by simp [he])) rest

theorem mem_predicates {id : PredicateId} :
    id ∈ f.predicates ↔ ∃ c ∈ f.clauses, id ∈ c.predicates := by
  simp only [predicates, OrderedSet.mem_ofList, List.mem_flatMap]
  rfl

/-- What a formula says depends only on its own predicates. -/
theorem clauses_congr {o o' : Outcomes} (ho : ∀ id ∈ f.predicates, o id = o' id) :
    ∀ c ∈ f.clauses, ∀ l ∈ c.literals, l.truth? o = l.truth? o' := by
  intro c hc l hl
  cases l with
  | constant b => rfl
  | predicate id negated =>
    rw [Literal.truth?, Literal.truth?,
      ho id (mem_predicates.2 ⟨c, hc, Clause.mem_predicates.2 ⟨negated, hl⟩⟩)]

theorem isSatisfied_congr {o o' : Outcomes} (ho : ∀ id ∈ f.predicates, o id = o' id) :
    f.isSatisfied o = f.isSatisfied o' := by
  rw [Bool.eq_iff_iff, isSatisfied_iff, isSatisfied_iff]
  simp only [Clause.isSatisfied_iff]
  exact exists_congr fun c => and_congr_right fun hc => forall₂_congr fun l hl => by
    rw [clauses_congr ho c hc l hl]

theorem isViolated_congr {o o' : Outcomes} (ho : ∀ id ∈ f.predicates, o id = o' id) :
    f.isViolated o = f.isViolated o' := by
  rw [Bool.eq_iff_iff, isViolated_iff, isViolated_iff]
  simp only [Clause.isViolated_iff]
  exact forall₂_congr fun c hc => exists_congr fun l => and_congr_right fun hl => by
    rw [clauses_congr ho c hc l hl]

theorem Decides.congr {o o' : Outcomes} {x : Option Bool} (h : f.Decides o x)
    (ho : ∀ id ∈ f.predicates, o id = o' id) : f.Decides o' x where
  satisfied hx := isSatisfied_congr ho ▸ h.satisfied hx
  violated hx := isViolated_congr ho ▸ h.violated hx

theorem mem_rename_predicates {r : PredicateId → PredicateId} {id : PredicateId} :
    id ∈ (f.rename r).predicates ↔ ∃ i ∈ f.predicates, r i = id := by
  simp only [mem_predicates, rename, OrderedSet.mem_image, Clause.mem_predicates]
  constructor
  · rintro ⟨_, ⟨c, hc, rfl⟩, n, hid⟩
    obtain ⟨i, hi, rfl⟩ := Clause.mem_rename_predicate.1 hid
    exact ⟨i, ⟨c, hc, n, hi⟩, rfl⟩
  · rintro ⟨i, ⟨c, hc, n, hi⟩, rfl⟩
    exact ⟨_, ⟨c, hc, rfl⟩, n, Clause.mem_rename_predicate.2 ⟨i, hi, rfl⟩⟩

theorem rename_constant (r : PredicateId → PredicateId) (b : Bool) :
    (constant b).rename r = constant b := by
  cases b <;> rfl

theorem not_mem_predicates_constant {id : PredicateId} (b : Bool) :
    id ∉ (constant b).predicates := by
  intro h
  obtain ⟨c, hc, hid⟩ := mem_predicates.1 h
  rw [OrderedSet.mem_singleton.1 hc] at hid
  exact Clause.not_mem_predicates_constant b hid

theorem mem_predicates_of_reduce {s : OrderedSet Clause} {id : PredicateId}
    (h : id ∈ (reduce s).predicates) : ∃ c ∈ s, id ∈ c.predicates := by
  unfold reduce at h
  split at h
  · exact absurd h (not_mem_predicates_constant true)
  · dsimp only at h
    split at h
    · exact absurd h (not_mem_predicates_constant false)
    · obtain ⟨c, hc, hid⟩ := mem_predicates.1 h
      exact ⟨c, (OrderedSet.mem_filter.1 (mem_absorb.1 hc).1).1, hid⟩

theorem mem_predicates_of_literal {i id : PredicateId} (h : id ∈ (ofLiteral (.ofPredicate i)).predicates) :
    id = i := by
  obtain ⟨c, hc, hid⟩ := mem_predicates_of_reduce h
  rw [OrderedSet.mem_singleton.1 hc] at hid
  obtain ⟨negated, hl⟩ := Clause.mem_predicates_of_reduce hid
  have := OrderedSet.mem_singleton.1 hl
  cases this
  rfl

theorem mem_predicates_of_and {id : PredicateId} (h : id ∈ (f.and g).predicates) :
    id ∈ f.predicates ∨ id ∈ g.predicates := by
  obtain ⟨c, hc, hid⟩ := mem_predicates_of_reduce h
  obtain ⟨a, ha, b, hb, rfl⟩ := mem_pairs.1 hc
  obtain ⟨negated, hl⟩ := Clause.mem_predicates_of_reduce hid
  refine (OrderedSet.mem_union.1 hl).imp (fun hl => ?_) fun hl => ?_
  · exact mem_predicates.2 ⟨a, ha, Clause.mem_predicates.2 ⟨negated, hl⟩⟩
  · exact mem_predicates.2 ⟨b, hb, Clause.mem_predicates.2 ⟨negated, hl⟩⟩

theorem mem_predicates_of_or {id : PredicateId} (h : id ∈ (f.or g).predicates) :
    id ∈ f.predicates ∨ id ∈ g.predicates := by
  obtain ⟨c, hc, hid⟩ := mem_predicates_of_reduce h
  exact (OrderedSet.mem_union.1 hc).imp (fun hc => mem_predicates.2 ⟨c, hc, hid⟩) fun hc =>
    mem_predicates.2 ⟨c, hc, hid⟩

theorem mem_predicates_of_ofNegatedClause {c : Clause} {id : PredicateId}
    (h : id ∈ (ofNegatedClause c).predicates) : id ∈ c.predicates := by
  obtain ⟨d, hd, hid⟩ := mem_predicates_of_reduce h
  obtain ⟨l, hl, rfl⟩ := mem_negatedLiterals.1 hd
  obtain ⟨negated, hn⟩ := Clause.mem_predicates_of_reduce hid
  have he := OrderedSet.mem_singleton.1 hn
  cases l with
  | constant b => cases he
  | predicate i n =>
    cases he
    exact Clause.mem_predicates.2 ⟨n, hl⟩

theorem mem_predicates_of_foldl_and {fs : List Formula} {id : PredicateId}
    (h : id ∈ (fs.foldl Formula.and f).predicates) :
    id ∈ f.predicates ∨ ∃ g ∈ fs, id ∈ g.predicates := by
  induction fs generalizing f with
  | nil => exact .inl h
  | cons g rest ih =>
    rcases ih h with h | ⟨k, hk, hid⟩
    · exact (mem_predicates_of_and h).imp_right fun hg => ⟨g, by simp, hg⟩
    · exact .inr ⟨k, by simp [hk], hid⟩

theorem mem_predicates_of_negate {id : PredicateId} (h : id ∈ f.negate.predicates) :
    id ∈ f.predicates := by
  have hmem {g : Formula} (hg : g ∈ f.clauses.items.map ofNegatedClause)
      (hid : id ∈ g.predicates) : id ∈ f.predicates := by
    obtain ⟨c, hc, rfl⟩ := List.mem_map.1 hg
    exact mem_predicates.2 ⟨c, hc, mem_predicates_of_ofNegatedClause hid⟩
  unfold negate at h
  split at h
  · rename_i he
    exact absurd h (not_mem_predicates_constant true)
  · rename_i first rest he
    rcases mem_predicates_of_foldl_and h with hid | ⟨g, hg, hid⟩
    · exact hmem (he ▸ List.mem_cons_self) hid
    · exact hmem (he ▸ List.mem_cons_of_mem _ hg) hid

theorem IsReduced.rename {r : PredicateId → PredicateId} (h : f.IsReduced)
    (hr : ∀ i ∈ f.predicates, ∀ j ∈ f.predicates, r i = r j → i = j) : (f.rename r).IsReduced := by
  intro c hc
  obtain ⟨a, ha, rfl⟩ := OrderedSet.mem_image.1 hc
  exact (h a ha).rename fun i hi j hj =>
    hr i (mem_predicates.2 ⟨a, ha, hi⟩) j (mem_predicates.2 ⟨a, ha, hj⟩)

end Formula
end PolicyDecision
