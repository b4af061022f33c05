import PolicyDecision.Proofs.Formula.Normal

/-!
# PolicyDecision.Proofs.Formula.Lattice

The laws of formulas.

Equality of formulas is equality of their sets of clauses. It agrees with the laws of a lattice
because every operation ends in a normal form, and normal formulas that the same outcomes satisfy
are equal: each law is read off what satisfies its two sides.

* `Clause.IsNormal.subsumes_iff`: subsumption, as satisfaction by the outcomes that a clause
  requires.
* `Formula.isViolated_or`: what violates a disjunction, whatever is absorbed.
* `Formula.and_comm`, `or_and_self`, `and_or_left`, …: the laws of a bounded distributive lattice.
* `Formula.ofList?_eq_iff`: two lists of clauses make one formula if each of them covers the other.
* `Formula.IsBuilt`: what can be made of clauses and formulas.
* `Formula.lattice_laws`: the laws hold of everything that can be made.
-/

namespace PolicyDecision

/-! ## Subsumption -/

namespace Clause

variable {a c : Clause} {o : Outcomes}

theorem isSatisfied_of_subsumes (h : a.subsumes c = true) (hc : c.isSatisfied o = true) :
    a.isSatisfied o = true := by
  simp only [subsumes, Bool.or_eq_true] at h
  obtain (htrue | hfalse) | hsub := h
  · rw [eq_of_isTrue htrue, isSatisfied_constant]
  · rw [eq_of_isFalse hfalse, isSatisfied_constant] at hc
    cases hc
  · exact isSatisfied_iff.2 fun l hl => isSatisfied_iff.1 hc l (OrderedSet.isSubset_iff.1 hsub l hl)

theorem isViolated_of_subsumes (h : a.subsumes c = true) (ha : a.isViolated o = true) :
    c.isViolated o = true := by
  simp only [subsumes, Bool.or_eq_true] at h
  obtain (htrue | hfalse) | hsub := h
  · rw [eq_of_isTrue htrue, isViolated_constant] at ha
    cases ha
  · rw [eq_of_isFalse hfalse, isViolated_constant]
    rfl
  · obtain ⟨l, hl, hviolated⟩ := isViolated_iff.1 ha
    exact isViolated_iff.2 ⟨l, OrderedSet.isSubset_iff.1 hsub l hl, hviolated⟩

theorem subsumes_self (c : Clause) : c.subsumes c = true := by
  simp [subsumes, OrderedSet.isSubset_iff]

theorem subsumes_of_isFalse (a : Clause) (h : c.isFalse = true) : a.subsumes c = true := by
  simp [subsumes, h]

/-- A clause that can hold does so under the outcomes that it requires. -/
theorem IsNormal.isSatisfied_outcomes_self (hc : c.IsNormal) (hf : c.isFalse = false) :
    c.isSatisfied c.outcomes = true := by
  obtain hc | ⟨b, rfl⟩ := hc
  · exact (hc.isSatisfied_outcomes hc).2 fun l hl => hl
  · cases b with
    | true => rfl
    | false => cases hf

/-- A clause subsumes one that can hold if it is satisfied by the outcomes that the other one
requires. -/
theorem IsNormal.subsumes_iff (hc : c.IsNormal) (ha : a.IsNormal) (hf : c.isFalse = false) :
    a.subsumes c = true ↔ a.isSatisfied c.outcomes = true := by
  refine ⟨fun h => isSatisfied_of_subsumes h (hc.isSatisfied_outcomes_self hf), fun h => ?_⟩
  obtain ha | ⟨b, rfl⟩ := ha
  · obtain hc | ⟨b, rfl⟩ := hc
    · exact (ha.subsumes_iff hc).2 ((hc.isSatisfied_outcomes ha).1 h)
    · -- a constant requires no outcomes, and a proper clause needs some
      have hnone : (constant b).outcomes = fun _ => none := by
        funext id
        cases b <;> rfl
      rw [hnone, ha.isSatisfied_none] at h
      cases h
  · rw [isSatisfied_constant] at h
    subst h
    rfl

end Clause

/-! ## Laws -/

namespace Formula

variable {f g h : Formula} {o : Outcomes}

/-- What is left out or absorbed has a clause that subsumes it. -/
theorem exists_reduce_subsumes {s : OrderedSet Clause} {c : Clause} (hc : c ∈ s) :
    ∃ a ∈ (reduce s).clauses, a.subsumes c = true := by
  have hconstant (b : Bool) : Clause.constant b ∈ (constant b).clauses :=
    OrderedSet.mem_singleton.2 rfl
  unfold reduce
  split
  · exact ⟨_, hconstant true, rfl⟩
  · rename_i htrue
    have hnot (a : Clause) (ha : a ∈ s) : a.isTrue = false :=
      Bool.eq_false_iff.2 fun h => htrue (OrderedSet.any_iff.2 ⟨a, ha, h⟩)
    have hmem (a : Clause) : a ∈ s.filter (fun c => !c.isFalse) ↔ a ∈ s ∧ a.isFalse = false := by
      simp [OrderedSet.mem_filter]
    dsimp only
    split
    · rename_i hempty
      have hfalse : c.isFalse = true := by
        by_contra h
        exact OrderedSet.isEmpty_iff.1 hempty c ((hmem c).2 ⟨hc, Bool.eq_false_iff.2 h⟩)
      exact ⟨_, hconstant false, Clause.subsumes_of_isFalse _ hfalse⟩
    · rename_i hne
      have hcand (a : Clause) (ha : a ∈ s.filter fun c => !c.isFalse) :
          a.isTrue = false ∧ a.isFalse = false := ⟨hnot a ((hmem a).1 ha).1, ((hmem a).1 ha).2⟩
      cases hfalse : c.isFalse with
      | true =>
        obtain ⟨a, ha⟩ := exists_mem_absorb hcand (Bool.eq_false_iff.2 hne)
        exact ⟨a, ha, Clause.subsumes_of_isFalse a hfalse⟩
      | false =>
        obtain ⟨a, ha, hsub⟩ := exists_absorb_subset hcand ((hmem c).2 ⟨hc, hfalse⟩)
        refine ⟨a, ha, ?_⟩
        simp [Clause.subsumes, OrderedSet.isSubset_iff.2 hsub]

theorem isViolated_reduce {s : OrderedSet Clause} :
    (reduce s).isViolated o = true ↔ ∀ c ∈ s, c.isViolated o = true := by
  refine ⟨fun h c hc => ?_, isViolated_reduce_of⟩
  obtain ⟨a, ha, hsub⟩ := exists_reduce_subsumes hc
  exact Clause.isViolated_of_subsumes hsub (isViolated_iff.1 h a ha)

theorem isViolated_or :
    (f.or g).isViolated o = true ↔ f.isViolated o = true ∧ g.isViolated o = true := by
  rw [or, isViolated_reduce, isViolated_iff, isViolated_iff]
  simp only [OrderedSet.mem_union]
  constructor
  · intro h
    exact ⟨fun c hc => h c (.inl hc), fun c hc => h c (.inr hc)⟩
  · rintro ⟨hf, hg⟩ c (hc | hc)
    · exact hf c hc
    · exact hg c hc

theorem isSatisfied_and_eq (f g : Formula) (o : Outcomes) :
    (f.and g).isSatisfied o = (f.isSatisfied o && g.isSatisfied o) := by
  rw [Bool.eq_iff_iff, Bool.and_eq_true]
  exact isSatisfied_and

theorem isSatisfied_or_eq (f g : Formula) (o : Outcomes) :
    (f.or g).isSatisfied o = (f.isSatisfied o || g.isSatisfied o) := by
  rw [Bool.eq_iff_iff, Bool.or_eq_true]
  exact isSatisfied_or

theorem isViolated_or_eq (f g : Formula) (o : Outcomes) :
    (f.or g).isViolated o = (f.isViolated o && g.isViolated o) := by
  rw [Bool.eq_iff_iff, Bool.and_eq_true]
  exact isViolated_or

/-! ### Each operation alone -/

theorem and_comm (f g : Formula) : f.and g = g.and f :=
  (isNormal_and f g).ext (isNormal_and g f) fun o => by
    rw [isSatisfied_and_eq, isSatisfied_and_eq, Bool.and_comm]

theorem or_comm (hf : f.IsNormal) (hg : g.IsNormal) : f.or g = g.or f :=
  (hf.or hg).ext (hg.or hf) fun o => by
    rw [isSatisfied_or_eq, isSatisfied_or_eq, Bool.or_comm]

theorem and_assoc (f g h : Formula) : (f.and g).and h = f.and (g.and h) :=
  (isNormal_and _ h).ext (isNormal_and f _) fun o => by
    simp only [isSatisfied_and_eq, Bool.and_assoc]

theorem or_assoc (hf : f.IsNormal) (hg : g.IsNormal) (hh : h.IsNormal) :
    (f.or g).or h = f.or (g.or h) :=
  ((hf.or hg).or hh).ext (hf.or (hg.or hh)) fun o => by
    simp only [isSatisfied_or_eq, Bool.or_assoc]

theorem and_self (hf : f.IsNormal) : f.and f = f :=
  (isNormal_and f f).ext hf fun o => by rw [isSatisfied_and_eq, Bool.and_self]

theorem or_self (hf : f.IsNormal) : f.or f = f :=
  (hf.or hf).ext hf fun o => by rw [isSatisfied_or_eq, Bool.or_self]

/-! ### Both operations -/

theorem or_and_self (hf : f.IsNormal) : f.or (f.and g) = f :=
  (hf.or (isNormal_and f g)).ext hf fun o => by
    rw [isSatisfied_or_eq, isSatisfied_and_eq]
    cases f.isSatisfied o <;> rfl

theorem and_or_self (hf : f.IsNormal) : f.and (f.or g) = f :=
  (isNormal_and f _).ext hf fun o => by
    rw [isSatisfied_and_eq, isSatisfied_or_eq]
    cases f.isSatisfied o <;> rfl

theorem and_or_left (f g h : Formula) : f.and (g.or h) = (f.and g).or (f.and h) :=
  (isNormal_and f _).ext ((isNormal_and f g).or (isNormal_and f h)) fun o => by
    simp only [isSatisfied_and_eq, isSatisfied_or_eq, Bool.and_or_distrib_left]

theorem or_and_left (hf : f.IsNormal) (g h : Formula) :
    f.or (g.and h) = (f.or g).and (f.or h) :=
  (hf.or (isNormal_and g h)).ext (isNormal_and _ _) fun o => by
    simp only [isSatisfied_and_eq, isSatisfied_or_eq, Bool.or_and_distrib_left]

/-! ### Constants -/

theorem and_constant_true (hf : f.IsNormal) : f.and (constant true) = f :=
  (isNormal_and f _).ext hf fun o => by
    rw [isSatisfied_and_eq, isSatisfied_constant, Bool.and_true]

theorem and_constant_false (f : Formula) : f.and (constant false) = constant false :=
  (isNormal_and f _).ext (isNormal_constant false) fun o => by
    rw [isSatisfied_and_eq, isSatisfied_constant, Bool.and_false]

theorem or_constant_false (hf : f.IsNormal) : f.or (constant false) = f :=
  (hf.or (isNormal_constant false)).ext hf fun o => by
    rw [isSatisfied_or_eq, isSatisfied_constant, Bool.or_false]

theorem or_constant_true (hf : f.IsNormal) : f.or (constant true) = constant true :=
  (hf.or (isNormal_constant true)).ext (isNormal_constant true) fun o => by
    rw [isSatisfied_or_eq, isSatisfied_constant, Bool.or_true]

/-! ### Negation

The other law of De Morgan does not hold: the conjunction of `p` and `!p` is `false`, and its
negation `true`, but the disjunction of their negations stays `!p | p`. -/

theorem negate_or (f g : Formula) : (f.or g).negate = f.negate.and g.negate :=
  (isNormal_negate _).ext (isNormal_and _ _) fun o => by
    simp only [isSatisfied_and_eq, isSatisfied_negate, isViolated_or_eq]

/-! ## Lists of clauses -/

theorem isSatisfied_reduce_ofList {clauses : List Clause} :
    (reduce (.ofList clauses)).isSatisfied o = true ↔ ∃ c ∈ clauses, c.isSatisfied o = true := by
  rw [isSatisfied_reduce]
  simp only [OrderedSet.mem_ofList]

theorem isNormal_reduce_ofList {clauses : List Clause} (h : ∀ c ∈ clauses, c.IsNormal) :
    (reduce (.ofList clauses)).IsNormal :=
  isNormal_reduce fun c hc => h c (OrderedSet.mem_ofList.1 hc)

/-- Two lists of normal clauses make one formula if each clause of either list is subsumed by one of
the other list. -/
theorem reduce_ofList_eq_iff {clauses clauses' : List Clause} (hne : clauses ≠ [])
    (hne' : clauses' ≠ [])
    (h : ∀ c ∈ clauses, c.IsNormal) (h' : ∀ c ∈ clauses', c.IsNormal) :
    reduce (.ofList clauses) = reduce (.ofList clauses') ↔
      (∀ c ∈ clauses, ∃ a ∈ clauses', a.subsumes c = true) ∧
      ∀ c ∈ clauses', ∃ a ∈ clauses, a.subsumes c = true := by
  -- the outcomes that a clause requires satisfy the one formula, hence a clause of the other one
  have hcovered {l m : List Clause} (hm : m ≠ []) (hl : ∀ c ∈ l, c.IsNormal)
      (hnormal : ∀ c ∈ m, c.IsNormal) (he : reduce (.ofList l) = reduce (.ofList m)) :
      ∀ c ∈ l, ∃ a ∈ m, a.subsumes c = true := by
    intro c hc
    cases hfalse : c.isFalse with
    | true =>
      obtain ⟨a, ha⟩ := List.exists_mem_of_ne_nil m hm
      exact ⟨a, ha, Clause.subsumes_of_isFalse a hfalse⟩
    | false =>
      have hself := (hl c hc).isSatisfied_outcomes_self hfalse
      have hsat := isSatisfied_reduce_ofList.2 ⟨c, hc, hself⟩
      rw [he] at hsat
      obtain ⟨a, ha, hsat⟩ := isSatisfied_reduce_ofList.1 hsat
      exact ⟨a, ha, ((hl c hc).subsumes_iff (hnormal a ha) hfalse).2 hsat⟩
  have hsatisfied {l m : List Clause} {o : Outcomes}
      (hcover : ∀ c ∈ l, ∃ a ∈ m, a.subsumes c = true) :
      (∃ c ∈ l, c.isSatisfied o = true) → ∃ a ∈ m, a.isSatisfied o = true := by
    rintro ⟨c, hc, hsat⟩
    obtain ⟨a, ha, hsub⟩ := hcover c hc
    exact ⟨a, ha, Clause.isSatisfied_of_subsumes hsub hsat⟩
  constructor
  · intro he
    exact ⟨hcovered hne' h h' he, hcovered hne h' h he.symm⟩
  · rintro ⟨hcover, hcover'⟩
    refine (isNormal_reduce_ofList h).ext (isNormal_reduce_ofList h') fun o => ?_
    rw [Bool.eq_iff_iff, isSatisfied_reduce_ofList, isSatisfied_reduce_ofList]
    exact ⟨hsatisfied hcover, hsatisfied hcover'⟩

/-- The same with the refusal of the empty list. -/
theorem ofList?_eq_iff {clauses clauses' : List Clause} (h : ∀ c ∈ clauses, c.IsNormal)
    (h' : ∀ c ∈ clauses', c.IsNormal) :
    ofList? clauses = ofList? clauses' ↔
      (∀ c ∈ clauses, ∃ a ∈ clauses', a.subsumes c = true) ∧
      ∀ c ∈ clauses', ∃ a ∈ clauses, a.subsumes c = true := by
  cases clauses with
  | nil =>
    cases clauses' with
    | nil => simp [ofList?]
    | cons c' rest' => exact iff_of_false nofun fun h => by simpa using h.2 c' List.mem_cons_self
  | cons c rest =>
    cases clauses' with
    | nil => exact iff_of_false nofun fun h => by simpa using h.1 c List.mem_cons_self
    | cons c' rest' =>
      rw [← reduce_ofList_eq_iff (List.cons_ne_nil c rest) (List.cons_ne_nil c' rest') h h']
      exact ⟨Except.ok.inj, congrArg Except.ok⟩

end Formula

/-! ## What can be made -/

/-- The clauses that the constructors and the operations of clauses make. A renaming has to keep the
predicates of the clause apart. -/
inductive Clause.IsBuilt : Clause → Prop
  | ofList {literals : List Literal} {c : Clause} (made : ofList? literals = .ok c) : IsBuilt c
  | ofLiteral (l : Literal) : IsBuilt (.ofLiteral l)
  | constant (b : Bool) : IsBuilt (.constant b)
  | and {a c : Clause} (left : IsBuilt a) (right : IsBuilt c) : IsBuilt (a.and c)
  | rename {c : Clause} {r : PredicateId → PredicateId} (clause : IsBuilt c)
      (apart : ∀ i ∈ c.predicates, ∀ j ∈ c.predicates, r i = r j → i = j) : IsBuilt (c.rename r)

/-- The formulas that the constructors and the operations of formulas make out of such clauses. -/
inductive Formula.IsBuilt : Formula → Prop
  | ofList {clauses : List Clause} {f : Formula} (built : ∀ c ∈ clauses, c.IsBuilt)
      (made : ofList? clauses = .ok f) : IsBuilt f
  | constant (b : Bool) : IsBuilt (.constant b)
  | and {f g : Formula} (left : IsBuilt f) (right : IsBuilt g) : IsBuilt (f.and g)
  | or {f g : Formula} (left : IsBuilt f) (right : IsBuilt g) : IsBuilt (f.or g)
  | negate {f : Formula} (operand : IsBuilt f) : IsBuilt f.negate
  | rename {f : Formula} {r : PredicateId → PredicateId} (formula : IsBuilt f)
      (apart : ∀ i ∈ f.predicates, ∀ j ∈ f.predicates, r i = r j → i = j) : IsBuilt (f.rename r)

namespace Clause

variable {c : Clause} {r : PredicateId → PredicateId}

theorem IsNormal.renamed (h : c.IsNormal)
    (hr : ∀ i ∈ c.predicates, ∀ j ∈ c.predicates, r i = r j → i = j) : (c.rename r).IsNormal := by
  obtain h | ⟨b, rfl⟩ := h
  · obtain ⟨s, hs, hrs⟩ := exists_injective_renaming hr
    rw [rename_congr hrs]
    exact .inl (h.rename hs)
  · rw [rename_constant]
    exact isNormal_constant b

theorem IsBuilt.isNormal (h : c.IsBuilt) : c.IsNormal := by
  induction h with
  | @ofList literals c made =>
    rw [ofList?] at made
    split at made
    · cases made
    · cases made
      exact isNormal_reduce _
  | ofLiteral l => exact isNormal_ofLiteral l
  | constant b => exact isNormal_constant b
  | and _ _ _ _ => exact isNormal_and _ _
  | rename _ apart ih => exact ih.renamed apart

end Clause

namespace Formula

variable {f g h : Formula} {r : PredicateId → PredicateId}

theorem IsNormal.renamed (hf : f.IsNormal)
    (hr : ∀ i ∈ f.predicates, ∀ j ∈ f.predicates, r i = r j → i = j) : (f.rename r).IsNormal := by
  have hapart : ∀ i ∈ f.predicates.items, ∀ j ∈ f.predicates.items, r i = r j → i = j := hr
  obtain ⟨s, hs, hrs⟩ := exists_injective_renaming hapart
  rw [rename_congr hrs]
  exact hf.rename hs

theorem IsBuilt.isNormal (hf : f.IsBuilt) : f.IsNormal := by
  induction hf with
  | @ofList clauses f built made =>
    rw [ofList?] at made
    split at made
    · cases made
    · cases made
      exact isNormal_reduce_ofList fun c hc => (built c hc).isNormal
  | constant b => exact isNormal_constant b
  | and _ _ _ _ => exact isNormal_and _ _
  | or _ _ ihf ihg => exact ihf.or ihg
  | negate _ _ => exact isNormal_negate _
  | rename _ apart ih => exact ih.renamed apart

theorem isBuilt_ofLiteral (l : Literal) : (ofLiteral l).IsBuilt := by
  have hbuilt : ∀ c ∈ [Clause.ofLiteral l], c.IsBuilt := fun c hc =>
    List.mem_singleton.1 hc ▸ .ofLiteral l
  exact .ofList hbuilt rfl

/-- Formulas are a bounded distributive lattice, in which the negation of a disjunction is the
conjunction of the negations. Two lists of clauses make one formula if and only if each clause of
either list is subsumed by one of the other list; so neither order nor repetitions matter, nor do
further contradictory clauses beside another clause, nor subsumed ones. -/
theorem lattice_laws (hf : f.IsBuilt) (hg : g.IsBuilt) (hh : h.IsBuilt) :
    (f.and g = g.and f ∧ f.or g = g.or f) ∧
    ((f.and g).and h = f.and (g.and h) ∧ (f.or g).or h = f.or (g.or h)) ∧
    (f.and f = f ∧ f.or f = f) ∧
    (f.or (f.and g) = f ∧ f.and (f.or g) = f) ∧
    (f.and (g.or h) = (f.and g).or (f.and h) ∧ f.or (g.and h) = (f.or g).and (f.or h)) ∧
    (f.and (constant true) = f ∧ f.or (constant false) = f) ∧
    (f.and (constant false) = constant false ∧ f.or (constant true) = constant true) ∧
    (f.or g).negate = f.negate.and g.negate ∧
    (∀ clauses clauses' : List Clause, (∀ c ∈ clauses, c.IsBuilt) → (∀ c ∈ clauses', c.IsBuilt) →
      (ofList? clauses = ofList? clauses' ↔
        (∀ c ∈ clauses, ∃ a ∈ clauses', a.subsumes c = true) ∧
        ∀ c ∈ clauses', ∃ a ∈ clauses, a.subsumes c = true) ∧
      (clauses.Perm clauses' → ofList? clauses = ofList? clauses')) ∧
    ∀ (c : Clause) (clauses : List Clause), c.IsBuilt → (∀ a ∈ clauses, a.IsBuilt) →
      (c ∈ clauses ∨ (c.isFalse = true ∧ clauses ≠ []) ∨ ∃ a ∈ clauses, a.subsumes c = true) →
      ofList? (c :: clauses) = ofList? clauses := by
  have hf := hf.isNormal
  have hg := hg.isNormal
  have hh := hh.isNormal
  have hlists (clauses clauses' : List Clause) (h : ∀ c ∈ clauses, c.IsBuilt)
      (h' : ∀ c ∈ clauses', c.IsBuilt) :=
    ofList?_eq_iff (fun c hc => (h c hc).isNormal) fun c hc => (h' c hc).isNormal
  refine ⟨⟨and_comm f g, or_comm hf hg⟩, ⟨and_assoc f g h, or_assoc hf hg hh⟩,
    ⟨and_self hf, or_self hf⟩, ⟨or_and_self hf, and_or_self hf⟩,
    ⟨and_or_left f g h, or_and_left hf g h⟩, ⟨and_constant_true hf, or_constant_false hf⟩,
    ⟨and_constant_false f, or_constant_true hf⟩, negate_or f g, ?_, ?_⟩
  · intro clauses clauses' h h'
    refine ⟨hlists clauses clauses' h h', fun hperm => (hlists clauses clauses' h h').2 ⟨?_, ?_⟩⟩
    · exact fun c hc => ⟨c, hperm.mem_iff.1 hc, c.subsumes_self⟩
    · exact fun c hc => ⟨c, hperm.mem_iff.2 hc, c.subsumes_self⟩
  · intro c clauses hc h hadded
    have hcovered : ∃ a ∈ clauses, a.subsumes c = true := by
      obtain hmem | ⟨hfalse, hne⟩ | hsub := hadded
      · exact ⟨c, hmem, c.subsumes_self⟩
      · obtain ⟨a, ha⟩ := List.exists_mem_of_ne_nil clauses hne
        exact ⟨a, ha, Clause.subsumes_of_isFalse a hfalse⟩
      · exact hsub
    refine (hlists _ _ (List.forall_mem_cons.2 ⟨hc, h⟩) h).2 ⟨?_, ?_⟩
    · exact List.forall_mem_cons.2 ⟨hcovered, fun a ha => ⟨a, ha, a.subsumes_self⟩⟩
    · exact fun a ha => ⟨a, List.mem_cons_of_mem c ha, a.subsumes_self⟩

/-- In the product `p1 & (p2 | !p1 | !p3)` a contradictory clause is left out; beside the clause
`p1` the clause `p1 & p2` is. -/
theorem lattice_laws_threePredicates :
    let p (id : PredicateId) : Formula := .ofLiteral (.ofPredicate id)
    let q (id : PredicateId) : Clause := .ofLiteral (.ofPredicate id)
    ((p 1).IsBuilt ∧ (p 2).IsBuilt ∧ ((p 1).and (p 3)).negate.IsBuilt ∧
      (p 1).and ((p 2).or ((p 1).and (p 3)).negate) =
        ((p 1).and (p 2)).or ((p 1).and ((p 1).and (p 3)).negate)) ∧
    ((q 1).IsBuilt ∧ ((q 1).and (q 2)).IsBuilt ∧ (q 1).subsumes ((q 1).and (q 2)) = true ∧
      ofList? [(q 1).and (q 2), q 1] = ofList? [q 1]) := by
  intro p q
  have hp (id : PredicateId) : (p id).IsBuilt := isBuilt_ofLiteral _
  have hq (id : PredicateId) : (q id).IsBuilt := .ofLiteral _
  have hnegated : ((p 1).and (p 3)).negate.IsBuilt := .negate (.and (hp 1) (hp 3))
  have hsub : (q 1).subsumes ((q 1).and (q 2)) = true := by decide
  obtain ⟨-, -, -, -, hdistrib, -, -, -, -, hadded⟩ := lattice_laws (hp 1) (hp 2) hnegated
  refine ⟨⟨hp 1, hp 2, hnegated, hdistrib.1⟩, hq 1, .and (hq 1) (hq 2), hsub, ?_⟩
  refine hadded _ [q 1] (.and (hq 1) (hq 2)) (fun a ha => ?_)
    (.inr (.inr ⟨q 1, List.mem_cons_self, hsub⟩))
  rw [List.mem_singleton.1 ha]
  exact hq 1

end Formula
end PolicyDecision
