import Mathlib.Data.Finset.Lattice.Fold
import PolicyDecision.Proofs.Formula.Reduced

/-!
# PolicyDecision.Proofs.Formula.Normal

Formulas in normal form.

A clause is normal when it is a constant, or a non-empty set of predicates none of which stands beside
its negation. A formula is normal when it is a constant, or a non-empty set of such clauses none of
which subsumes another.

* `Formula.isNormal_and`, `IsNormal.or`, `isNormal_negate`: the connectives make normal formulas.
* `Formula.IsNormal.ext`: normal formulas that the same outcomes satisfy are the same formula.
* `Formula.rename_and`, `rename_or`, `rename_negate`: renaming commutes with the connectives, although it
  changes the order of the clauses.
-/

namespace PolicyDecision

/-! ## Clauses -/

namespace Clause

/-- Some predicates, none beside its negation. -/
structure IsProper (c : Clause) : Prop where
  nonempty : ∃ l, l ∈ c.literals
  no_constant : ∀ l ∈ c.literals, l.constant? = none
  no_complement : ∀ id, .predicate id true ∈ c.literals → .predicate id false ∉ c.literals

def IsNormal (c : Clause) : Prop := c.IsProper ∨ ∃ b, c = constant b

variable {a c : Clause}

theorem isNormal_constant (b : Bool) : (constant b).IsNormal := .inr ⟨b, rfl⟩

theorem IsProper.ne_constant (h : c.IsProper) (b : Bool) : c ≠ constant b := by
  rintro rfl
  have := h.no_constant (.constant b) (OrderedSet.mem_singleton.2 rfl)
  cases this

theorem IsProper.isTrue (h : c.IsProper) : c.isTrue = false :=
  Bool.eq_false_iff.2 fun ht => h.ne_constant true (eq_of_isTrue ht)

theorem IsProper.isFalse (h : c.IsProper) : c.isFalse = false :=
  Bool.eq_false_iff.2 fun hf => h.ne_constant false (eq_of_isFalse hf)

theorem IsNormal.proper (h : c.IsNormal) (ht : c.isTrue = false) (hf : c.isFalse = false) :
    c.IsProper := by
  rcases h with h | ⟨b, rfl⟩
  · exact h
  · cases b with
    | true => cases ht
    | false => cases hf

theorem IsProper.subsumes_iff (ha : a.IsProper) (hc : c.IsProper) :
    a.subsumes c = true ↔ ∀ l ∈ a.literals, l ∈ c.literals := by
  simp [subsumes, ha.isTrue, hc.isFalse, OrderedSet.isSubset_iff]

theorem IsNormal.isReduced (h : c.IsNormal) : c.IsReduced := by
  rcases h with h | ⟨b, rfl⟩
  · exact ⟨fun hf => (nomatch h.no_constant _ hf), h.no_complement⟩
  · exact isReduced_constant b

theorem isNormal_reduce (s : OrderedSet Literal) : (reduce s).IsNormal := by
  unfold reduce
  split
  · exact isNormal_constant false
  · dsimp only
    split
    · exact isNormal_constant true
    · rename_i hne
      split
      · exact isNormal_constant false
      · rename_i hc
        refine .inl ⟨?_, ?_, ?_⟩
        · by_contra hno
          exact hne (OrderedSet.isEmpty_iff.2 fun l hl => hno ⟨l, hl⟩)
        · intro l hl
          simpa using (OrderedSet.mem_filter.1 hl).2
        · intro id hn hp
          refine hc (OrderedSet.any_iff.2 ⟨_, hn, ?_⟩)
          simpa [Literal.isNegated, Literal.negate, OrderedSet.contains_iff] using hp

theorem isNormal_ofLiteral (l : Literal) : (ofLiteral l).IsNormal := isNormal_reduce _

theorem isNormal_and (a b : Clause) : (a.and b).IsNormal := isNormal_reduce _

/-- Only what the literals of a clause require is known. -/
def outcomes (c : Clause) : Outcomes := fun id =>
  if c.literals.contains (.predicate id false) then some true
  else if c.literals.contains (.predicate id true) then some false
  else none

/-- Under these outcomes just the literals of the clause hold. -/
theorem IsProper.truth?_outcomes (h : c.IsProper) {l : Literal} (hl : l.constant? = none) :
    l.truth? c.outcomes = some true ↔ l ∈ c.literals := by
  cases l with
  | constant b => cases hl
  | predicate id negated =>
    have hno := h.no_complement id
    rw [Literal.truth?, outcomes, ← OrderedSet.contains_iff]
    simp only [← OrderedSet.contains_iff, Bool.not_eq_true] at hno
    cases hp : c.literals.contains (.predicate id false) <;>
      cases hn : c.literals.contains (.predicate id true) <;> cases negated <;> simp_all

theorem IsProper.isSatisfied_outcomes (hc : c.IsProper) (ha : a.IsProper) :
    a.isSatisfied c.outcomes = true ↔ ∀ l ∈ a.literals, l ∈ c.literals := by
  rw [isSatisfied_iff]
  exact forall₂_congr fun l hl => hc.truth?_outcomes (ha.no_constant l hl)

/-- Where nothing is known no proper clause is satisfied. -/
theorem IsProper.isSatisfied_none (h : c.IsProper) : c.isSatisfied (fun _ => none) = false := by
  refine Bool.eq_false_iff.2 fun hsat => ?_
  obtain ⟨l, hl⟩ := h.nonempty
  have htruth := isSatisfied_iff.1 hsat l hl
  cases l with
  | constant b => cases h.no_constant _ hl
  | predicate id negated => cases htruth

end Clause

/-! ## Formulas -/

namespace Formula

/-- Some proper clauses, none of which subsumes another. -/
structure IsProper (f : Formula) : Prop where
  nonempty : ∃ c, c ∈ f.clauses
  proper : ∀ c ∈ f.clauses, c.IsProper
  minimal : ∀ a ∈ f.clauses, ∀ c ∈ f.clauses, a.subsumes c = true → a = c

def IsNormal (f : Formula) : Prop := f.IsProper ∨ ∃ b, f = constant b

variable {f g : Formula}

theorem isNormal_constant (b : Bool) : (constant b).IsNormal := .inr ⟨b, rfl⟩

/-- A smallest clause of a non-empty set is kept. -/
theorem exists_mem_absorb {s : OrderedSet Clause}
    (hs : ∀ c ∈ s, c.isTrue = false ∧ c.isFalse = false) (hne : s.isEmpty = false) :
    ∃ c, c ∈ absorb s := by
  have hmem : ∃ c, c ∈ s := by
    by_contra hno
    rw [OrderedSet.isEmpty_iff.2 fun c hc => hno ⟨c, hc⟩] at hne
    cases hne
  obtain ⟨c, hc⟩ := hmem
  obtain ⟨a, ha, -⟩ := exists_absorb_subset hs hc
  exact ⟨a, ha⟩

theorem isNormal_reduce {s : OrderedSet Clause} (h : ∀ c ∈ s, c.IsNormal) :
    (reduce s).IsNormal := by
  unfold reduce
  split
  · exact isNormal_constant true
  · rename_i ht
    dsimp only
    split
    · exact isNormal_constant false
    · rename_i hne
      have hcand (c : Clause) (hc : c ∈ s.filter fun c => !c.isFalse) :
          c ∈ s ∧ c.isTrue = false ∧ c.isFalse = false := by
        obtain ⟨hc, hf⟩ := OrderedSet.mem_filter.1 hc
        refine ⟨hc, Bool.eq_false_iff.2 fun htrue => ht ?_, by simpa using hf⟩
        exact OrderedSet.any_iff.2 ⟨c, hc, htrue⟩
      refine .inl ⟨?_, fun c hc => ?_, fun a ha c hc hsub => ?_⟩
      · exact exists_mem_absorb (fun c hc => (hcand c hc).2) (Bool.eq_false_iff.2 hne)
      · obtain ⟨hs, ht, hf⟩ := hcand c (mem_absorb.1 hc).1
        exact (h c hs).proper ht hf
      · by_contra hne
        rw [(mem_absorb.1 hc).2 a (mem_absorb.1 ha).1 hne] at hsub
        cases hsub

theorem isNormal_ofLiteral (l : Literal) : (ofLiteral l).IsNormal :=
  isNormal_reduce fun c hc => by
    rw [OrderedSet.mem_singleton.1 hc]
    exact Clause.isNormal_ofLiteral l

theorem isNormal_and (f g : Formula) : (f.and g).IsNormal :=
  isNormal_reduce fun c hc => by
    obtain ⟨a, _, b, _, rfl⟩ := mem_pairs.1 hc
    exact Clause.isNormal_and a b

theorem IsNormal.clauses (h : f.IsNormal) : ∀ c ∈ f.clauses, c.IsNormal := by
  intro c hc
  rcases h with h | ⟨b, rfl⟩
  · exact .inl (h.proper c hc)
  · rw [OrderedSet.mem_singleton.1 hc]
    exact Clause.isNormal_constant b

theorem IsNormal.isReduced (h : f.IsNormal) : f.IsReduced := fun c hc => (h.clauses c hc).isReduced

theorem IsNormal.or (hf : f.IsNormal) (hg : g.IsNormal) : (f.or g).IsNormal :=
  isNormal_reduce fun c hc => (OrderedSet.mem_union.1 hc).elim (hf.clauses c) (hg.clauses c)

theorem isNormal_ofNegatedClause (c : Clause) : (ofNegatedClause c).IsNormal :=
  isNormal_reduce fun d hd => by
    obtain ⟨l, _, rfl⟩ := mem_negatedLiterals.1 hd
    exact Clause.isNormal_ofLiteral _

theorem IsNormal.foldl_and (h : f.IsNormal) (fs : List Formula) :
    (fs.foldl Formula.and f).IsNormal := by
  induction fs generalizing f with
  | nil => exact h
  | cons g rest ih => exact ih (isNormal_and f g)

theorem isNormal_negate (f : Formula) : f.negate.IsNormal := by
  have hmem (g : Formula) (hg : g ∈ f.clauses.items.map ofNegatedClause) : g.IsNormal := by
    obtain ⟨c, _, rfl⟩ := List.mem_map.1 hg
    exact isNormal_ofNegatedClause c
  unfold negate
  split
  · exact isNormal_constant true
  · rename_i first rest he
    exact IsNormal.foldl_and (hmem first (by simp [he])) rest

/-! ### Normal formulas are told apart by what satisfies them -/

theorem IsProper.isSatisfied_outcomes (hf : f.IsProper) {c : Clause} (hc : c.IsProper) :
    f.isSatisfied c.outcomes = true ↔ ∃ a ∈ f.clauses, ∀ l ∈ a.literals, l ∈ c.literals := by
  rw [isSatisfied_iff]
  exact exists_congr fun a => and_congr_right fun ha => hc.isSatisfied_outcomes (hf.proper a ha)

/-- Every clause has a clause of the other formula inside it, which has one of the first inside it;
that one is the clause itself. -/
theorem IsProper.mem_of_isSatisfied_eq (hf : f.IsProper) (hg : g.IsProper)
    (h : ∀ o, f.isSatisfied o = g.isSatisfied o) {c : Clause} (hc : c ∈ f.clauses) :
    c ∈ g.clauses := by
  have hinside {f g : Formula} (hf : f.IsProper) (hg : g.IsProper)
      (h : ∀ o, f.isSatisfied o = g.isSatisfied o) {c : Clause} (hc : c ∈ f.clauses) :
      ∃ a ∈ g.clauses, ∀ l ∈ a.literals, l ∈ c.literals := by
    have hself : f.isSatisfied c.outcomes = true :=
      (hf.isSatisfied_outcomes (hf.proper c hc)).2 ⟨c, hc, fun l hl => hl⟩
    rw [h] at hself
    exact (hg.isSatisfied_outcomes (hf.proper c hc)).1 hself
  obtain ⟨a, ha, hac⟩ := hinside hf hg h hc
  obtain ⟨b, hb, hba⟩ := hinside hg hf (fun o => (h o).symm) ha
  have hbc : b = c := hf.minimal b hb c hc
    (((hf.proper b hb).subsumes_iff (hf.proper c hc)).2 fun l hl => hac l (hba l hl))
  subst hbc
  have hab : a = b :=
    Clause.ext (congrArg OrderedSet.items (OrderedSet.ext fun l => ⟨hac l, hba l⟩))
  exact hab ▸ ha

theorem IsProper.ne_constant_of_isSatisfied (hf : f.IsProper) (b : Bool) :
    ∃ o, f.isSatisfied o = !b := by
  cases b with
  | true =>
    refine ⟨fun _ => none, Bool.eq_false_iff.2 fun hsat => ?_⟩
    obtain ⟨c, hc, hsat⟩ := isSatisfied_iff.1 hsat
    rw [(hf.proper c hc).isSatisfied_none] at hsat
    cases hsat
  | false =>
    obtain ⟨c, hc⟩ := hf.nonempty
    exact ⟨c.outcomes,
      (hf.isSatisfied_outcomes (hf.proper c hc)).2 ⟨c, hc, fun l hl => hl⟩⟩

/-- Normal formulas that the same outcomes satisfy, some of which may be missing, are the same. -/
theorem IsNormal.ext (hf : f.IsNormal) (hg : g.IsNormal)
    (h : ∀ o, f.isSatisfied o = g.isSatisfied o) : f = g := by
  have hne {f : Formula} (hf : f.IsProper) (b : Bool)
      (h : ∀ o, f.isSatisfied o = (constant b).isSatisfied o) : False := by
    obtain ⟨o, ho⟩ := hf.ne_constant_of_isSatisfied b
    rw [h, isSatisfied_constant] at ho
    cases b <;> cases ho
  rcases hf with hf | ⟨b, rfl⟩
  · rcases hg with hg | ⟨b, rfl⟩
    · have hclauses : f.clauses = g.clauses := OrderedSet.ext fun c =>
        ⟨hf.mem_of_isSatisfied_eq hg h, hg.mem_of_isSatisfied_eq hf fun o => (h o).symm⟩
      cases f
      cases g
      cases hclauses
      rfl
    · exact (hne hf b h).elim
  · rcases hg with hg | ⟨b', rfl⟩
    · exact (hne hg b fun o => (h o).symm).elim
    · have hb := h fun _ => none
      rw [isSatisfied_constant, isSatisfied_constant] at hb
      rw [hb]

end Formula

/-! ## Renaming -/

section

variable {r s : PredicateId → PredicateId}

theorem Literal.rename_injective (hr : Function.Injective r) :
    Function.Injective (Literal.rename r) := by
  intro l m h
  cases l <;> cases m <;> simp_all [Literal.rename, hr.eq_iff]

theorem Literal.constant?_rename (l : Literal) : (l.rename r).constant? = l.constant? := by
  cases l <;> rfl

theorem Literal.rename_rename (l : Literal) :
    (l.rename r).rename s = l.rename fun id => s (r id) := by
  cases l <;> rfl

namespace OrderedSet

variable {α β : Type} [Ord α] [Ord β] [Std.TransOrd β] [Std.LawfulEqOrd β]

theorem apply_mem_image {f : α → β} (hf : Function.Injective f) {t : OrderedSet α} {a : α} :
    f a ∈ t.image f ↔ a ∈ t := by
  rw [mem_image]
  constructor
  · rintro ⟨b, hb, he⟩
    exact hf he ▸ hb
  · intro ha
    exact ⟨a, ha, rfl⟩

theorem size_image [Std.TransOrd α] {f : α → β} (hf : Function.Injective f) (t : OrderedSet α) :
    (t.image f).size = t.size := by
  have hperm : (t.image f).items.Perm (t.items.map f) := by
    refine (List.perm_ext_iff_of_nodup (nodup _) (t.nodup.map hf)).2 fun b => ?_
    rw [← mem_def, mem_image, List.mem_map]
    rfl
  rw [size, hperm.length_eq, List.length_map, size]

end OrderedSet

namespace Clause

variable {a c : Clause}

theorem rename_injective (hr : Function.Injective r) : Function.Injective (Clause.rename r) := by
  intro a c h
  refine ext (congrArg OrderedSet.items (OrderedSet.ext fun l => ?_))
  rw [← OrderedSet.apply_mem_image (Literal.rename_injective hr), ← OrderedSet.apply_mem_image
    (Literal.rename_injective hr) (t := c.literals)]
  exact iff_of_eq (congrArg (Literal.rename r l ∈ Clause.literals ·) h)

theorem IsProper.rename (hr : Function.Injective r) (h : c.IsProper) : (c.rename r).IsProper where
  nonempty := by
    obtain ⟨l, hl⟩ := h.nonempty
    exact ⟨l.rename r, OrderedSet.mem_image.2 ⟨l, hl, rfl⟩⟩
  no_constant l hl := by
    obtain ⟨m, hm, rfl⟩ := OrderedSet.mem_image.1 hl
    rw [Literal.constant?_rename]
    exact h.no_constant m hm
  no_complement id hn hp := by
    obtain ⟨i, hi, rfl⟩ := mem_rename_predicate.1 hn
    obtain ⟨j, hj, he⟩ := mem_rename_predicate.1 hp
    obtain rfl := hr he
    exact h.no_complement _ hi hj

theorem subset_of_rename (hr : Function.Injective r)
    (h : ∀ l ∈ (a.rename r).literals, l ∈ (c.rename r).literals) :
    ∀ l ∈ a.literals, l ∈ c.literals := by
  intro l hl
  have hmem := h (l.rename r) (OrderedSet.mem_image.2 ⟨l, hl, rfl⟩)
  exact (OrderedSet.apply_mem_image (Literal.rename_injective hr)).1 hmem

theorem rename_congr (h : ∀ id ∈ c.predicates, r id = s id) : c.rename r = c.rename s := by
  have hitems : c.literals.items.map (Literal.rename r) = c.literals.items.map (Literal.rename s) := by
    refine List.map_congr_left fun l hl => ?_
    cases l with
    | constant b => rfl
    | predicate id negated => rw [Literal.rename, Literal.rename, h id (mem_predicates.2 ⟨_, hl⟩)]
  rw [rename, rename, OrderedSet.image, OrderedSet.image, hitems]

theorem rename_rename (c : Clause) : (c.rename r).rename s = c.rename fun id => s (r id) := by
  refine ext (congrArg OrderedSet.items (OrderedSet.ext fun l => ?_))
  simp only [rename, OrderedSet.mem_image]
  constructor
  · rintro ⟨_, ⟨m, hm, rfl⟩, rfl⟩
    exact ⟨m, hm, m.rename_rename.symm⟩
  · rintro ⟨m, hm, rfl⟩
    exact ⟨_, ⟨m, hm, rfl⟩, m.rename_rename⟩

end Clause

namespace Formula

variable {f g : Formula}

theorem rename_congr (h : ∀ id ∈ f.predicates, r id = s id) : f.rename r = f.rename s := by
  have hitems : f.clauses.items.map (Clause.rename r) = f.clauses.items.map (Clause.rename s) :=
    List.map_congr_left fun c hc =>
      Clause.rename_congr fun id hid => h id (mem_predicates.2 ⟨c, hc, hid⟩)
  rw [rename, rename, OrderedSet.image, OrderedSet.image, hitems]

theorem clauses_injective (h : f.clauses = g.clauses) : f = g := by
  cases f
  cases g
  cases h
  rfl

theorem rename_rename (f : Formula) : (f.rename r).rename s = f.rename fun id => s (r id) := by
  refine clauses_injective (OrderedSet.ext fun c => ?_)
  simp only [rename, OrderedSet.mem_image]
  constructor
  · rintro ⟨_, ⟨a, ha, rfl⟩, rfl⟩
    exact ⟨a, ha, a.rename_rename.symm⟩
  · rintro ⟨a, ha, rfl⟩
    exact ⟨_, ⟨a, ha, rfl⟩, a.rename_rename⟩

theorem size_rename (hr : Function.Injective r) (f : Formula) : (f.rename r).size = f.size :=
  OrderedSet.size_image (Clause.rename_injective hr) f.clauses

theorem IsNormal.rename (hr : Function.Injective r) (h : f.IsNormal) : (f.rename r).IsNormal := by
  rcases h with h | ⟨b, rfl⟩
  · refine .inl ⟨?_, fun _ hmem => ?_, fun _ hleft _ hright hsub => ?_⟩
    · obtain ⟨c, hc⟩ := h.nonempty
      exact ⟨c.rename r, OrderedSet.mem_image.2 ⟨c, hc, rfl⟩⟩
    · obtain ⟨c, hc, rfl⟩ := OrderedSet.mem_image.1 hmem
      exact (h.proper c hc).rename hr
    · obtain ⟨a, ha, rfl⟩ := OrderedSet.mem_image.1 hleft
      obtain ⟨c, hc, rfl⟩ := OrderedSet.mem_image.1 hright
      have hpa := h.proper a ha
      have hpc := h.proper c hc
      have hlits := ((hpa.rename hr).subsumes_iff (hpc.rename hr)).1 hsub
      rw [h.minimal a ha c hc ((hpa.subsumes_iff hpc).2 (Clause.subset_of_rename hr hlits))]
  · rw [rename_constant]
    exact isNormal_constant b

theorem rename_ofLiteral (hr : Function.Injective r) (l : Literal) :
    (ofLiteral l).rename r = ofLiteral (l.rename r) := by
  refine ((isNormal_ofLiteral l).rename hr).ext (isNormal_ofLiteral _) fun o => ?_
  rw [Bool.eq_iff_iff, isSatisfied_rename, isSatisfied_ofLiteral, isSatisfied_ofLiteral,
    Literal.truth?_rename]

/-- The two sides list their clauses in different orders; but both are normal, and the same outcomes
satisfy them. -/
theorem rename_and (hr : Function.Injective r) (f g : Formula) :
    (f.and g).rename r = (f.rename r).and (g.rename r) := by
  refine ((isNormal_and f g).rename hr).ext (isNormal_and _ _) fun o => ?_
  rw [Bool.eq_iff_iff, isSatisfied_rename, isSatisfied_and, isSatisfied_and, isSatisfied_rename,
    isSatisfied_rename]

theorem rename_or (hr : Function.Injective r) (hf : f.IsNormal) (hg : g.IsNormal) :
    (f.or g).rename r = (f.rename r).or (g.rename r) := by
  refine ((hf.or hg).rename hr).ext ((hf.rename hr).or (hg.rename hr)) fun o => ?_
  rw [Bool.eq_iff_iff, isSatisfied_rename, isSatisfied_or, isSatisfied_or, isSatisfied_rename,
    isSatisfied_rename]

theorem rename_negate (hr : Function.Injective r) (f : Formula) :
    f.negate.rename r = (f.rename r).negate := by
  refine ((isNormal_negate f).rename hr).ext (isNormal_negate _) fun o => ?_
  rw [isSatisfied_rename, isSatisfied_negate, isSatisfied_negate, isViolated_rename]

end Formula

/-- A renaming that keeps some predicates apart agrees on them with one that keeps all apart. -/
theorem exists_injective_renaming {ids : List Nat} {r : Nat → Nat}
    (h : ∀ i ∈ ids, ∀ j ∈ ids, r i = r j → i = j) :
    ∃ s, Function.Injective s ∧ ∀ i ∈ ids, r i = s i := by
  have hbelow (i : Nat) (hi : i ∈ ids) : r i ≤ ids.toFinset.sup r :=
    Finset.le_sup (List.mem_toFinset.2 hi)
  refine ⟨fun i => if i ∈ ids then r i else ids.toFinset.sup r + 1 + i, fun i j he => ?_,
    fun i hi => by simp [hi]⟩
  dsimp only at he
  split at he <;> split at he
  · exact h i ‹_› j ‹_› he
  · have := hbelow i ‹_›
    omega
  · have := hbelow j ‹_›
    omega
  · omega

end
end PolicyDecision
