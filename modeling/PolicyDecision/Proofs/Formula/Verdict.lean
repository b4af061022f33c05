import PolicyDecision.Formula.Basic
import Mathlib.Data.List.Perm.Subperm

/-!
# PolicyDecision.Proofs.Formula.Verdict

What a formula says when some of its predicates failed.

Under outcomes that may be missing a formula is *satisfied* when all literals of one of its clauses
hold, and *violated* when every clause has a literal that does not hold. It may be neither. Under a
full assignment satisfaction is truth (`isSatisfied_total`).

* `Formula.isSatisfied_and`, `isSatisfied_or`, `isSatisfied_negate`: the connectives commute with
  satisfaction, although clauses are absorbed and contradictory ones left out.
* `Formula.isViolated_and_of`, `isViolated_or_of`, `isViolated_negate_of`: a violation is never lost.
* `Formula.isSatisfied_rename`, `isViolated_rename`.
-/

namespace PolicyDecision

/-- What is known of predicates; nothing of one that failed. -/
abbrev Outcomes := PredicateId → Option Bool

/-- The truth of a literal, if it is known. -/
def Literal.truth? (o : Outcomes) : Literal → Option Bool
  | .constant value => some value
  | .predicate id negated => (o id).map (· != negated)

namespace Clause

/-- All literals hold. -/
def isSatisfied (o : Outcomes) (c : Clause) : Bool :=
  c.literals.all fun l => l.truth? o == some true

/-- Some literal does not hold. -/
def isViolated (o : Outcomes) (c : Clause) : Bool :=
  c.literals.any fun l => l.truth? o == some false

end Clause

namespace Formula

/-- Some clause is satisfied. -/
def isSatisfied (o : Outcomes) (f : Formula) : Bool := f.clauses.any (Clause.isSatisfied o)

/-- Every clause is violated. -/
def isViolated (o : Outcomes) (f : Formula) : Bool := f.clauses.all (Clause.isViolated o)

end Formula

/-! ## Literals -/

namespace Literal

variable {o : Outcomes} {l : Literal}

theorem truth?_negate : l.negate.truth? o = (l.truth? o).map (!·) := by
  cases l with
  | constant value => rfl
  | predicate id negated =>
    cases h : o id with
    | none => simp [negate, truth?, h]
    | some b => cases b <;> cases negated <;> simp [negate, truth?, h]

theorem truth?_negate_eq_true : l.negate.truth? o = some true ↔ l.truth? o = some false := by
  rw [truth?_negate]
  cases l.truth? o with
  | none => simp
  | some b => cases b <;> simp

theorem truth?_negate_eq_false : l.negate.truth? o = some false ↔ l.truth? o = some true := by
  rw [truth?_negate]
  cases l.truth? o with
  | none => simp
  | some b => cases b <;> simp

theorem truth?_rename (f : PredicateId → PredicateId) :
    (l.rename f).truth? o = l.truth? fun id => o (f id) := by
  cases l <;> rfl

theorem truth?_total (a : Assignment) : l.truth? (fun id => some (a id)) = some (l.holds a) := by
  cases l with
  | constant value => rfl
  | predicate id negated => simp [truth?, holds, predicate?, evaluate]

theorem constant?_eq_some {b : Bool} (h : l.constant? = some b) : l = .constant b := by
  cases l with
  | constant value => simpa [constant?] using h
  | predicate id negated => simp [constant?] at h

end Literal

/-! ## Clauses -/

namespace Clause

variable {o : Outcomes} {a b c : Clause}

theorem isSatisfied_iff : c.isSatisfied o = true ↔ ∀ l ∈ c.literals, l.truth? o = some true := by
  simp [isSatisfied, OrderedSet.all_iff]

theorem isViolated_iff : c.isViolated o = true ↔ ∃ l ∈ c.literals, l.truth? o = some false := by
  simp [isViolated, OrderedSet.any_iff]

@[simp]
theorem isSatisfied_constant (b : Bool) : (constant b).isSatisfied o = b := by
  cases b <;> rfl

@[simp]
theorem isViolated_constant (b : Bool) : (constant b).isViolated o = !b := by
  cases b <;> rfl

theorem constant?_eq_some {b : Bool} (h : c.constant? = some b) : c = constant b := by
  simp only [constant?] at h
  split at h
  · rename_i l hl
    exact ext (by rw [hl, Literal.constant?_eq_some h]; rfl)
  · cases h

theorem eq_of_isTrue (h : c.isTrue = true) : c = constant true :=
  constant?_eq_some (by simpa [isTrue] using h)

theorem eq_of_isFalse (h : c.isFalse = true) : c = constant false :=
  constant?_eq_some (by simpa [isFalse] using h)

theorem not_isSatisfied_of_isViolated (h : c.isViolated o = true) : c.isSatisfied o = false := by
  obtain ⟨l, hl, hf⟩ := isViolated_iff.1 h
  refine Bool.eq_false_iff.2 fun hs => ?_
  rw [isSatisfied_iff.1 hs l hl] at hf
  cases hf

/-- A set with a predicate and its negation cannot hold as a whole. -/
theorem not_all_of_isContradictory {s : OrderedSet Literal} (h : isContradictory s = true) :
    ¬ ∀ l ∈ s, l.truth? o = some true := by
  intro hall
  obtain ⟨l, hl, hc⟩ := OrderedSet.any_iff.1 h
  rw [Bool.and_eq_true, OrderedSet.contains_iff] at hc
  have hf := Literal.truth?_negate_eq_true.1 (hall _ hc.2)
  rw [hall l hl] at hf
  cases hf

theorem isSatisfied_reduce {s : OrderedSet Literal} :
    (reduce s).isSatisfied o = true ↔ ∀ l ∈ s, l.truth? o = some true := by
  have hmem (l : Literal) : l ∈ s.filter (fun l => l.constant?.isNone) ↔
      l ∈ s ∧ l.constant? = none := by simp [OrderedSet.mem_filter]
  -- what the filter drops are constants, and `false` is none of them
  have hdrop (hf : ¬ s.contains (.constant false) = true) (l : Literal) (hl : l ∈ s)
      (hc : l.constant? ≠ none) : l.truth? o = some true := by
    obtain ⟨b, hb⟩ := Option.ne_none_iff_exists'.1 hc
    obtain rfl := Literal.constant?_eq_some hb
    cases b with
    | false => exact absurd (OrderedSet.contains_iff.2 hl) hf
    | true => rfl
  unfold reduce
  split
  · rename_i hf
    simp only [isSatisfied_constant, Bool.false_eq_true, false_iff]
    intro hall
    cases hall _ (OrderedSet.contains_iff.1 hf)
  · rename_i hf
    dsimp only
    split
    · rename_i he
      simp only [isSatisfied_constant, true_iff]
      intro l hl
      by_cases hc : l.constant? = none
      · exact absurd ((hmem l).2 ⟨hl, hc⟩) (OrderedSet.isEmpty_iff.1 he l)
      · exact hdrop hf l hl hc
    · split
      · rename_i hcontra
        simp only [isSatisfied_constant, Bool.false_eq_true, false_iff]
        intro hall
        exact not_all_of_isContradictory hcontra fun l hl => hall l ((hmem l).1 hl).1
      · rw [isSatisfied_iff]
        constructor
        · intro hall l hl
          by_cases hc : l.constant? = none
          · exact hall l ((hmem l).2 ⟨hl, hc⟩)
          · exact hdrop hf l hl hc
        · intro hall l hl
          exact hall l ((hmem l).1 hl).1

/-- The converse fails: a contradiction is the clause `false` even where its predicate failed. -/
theorem isViolated_reduce_of {s : OrderedSet Literal} {l : Literal} (hl : l ∈ s)
    (h : l.truth? o = some false) : (reduce s).isViolated o = true := by
  unfold reduce
  split
  · simp
  · rename_i hf
    have hc : l.constant?.isNone = true := by
      cases l with
      | predicate id negated => rfl
      | constant b =>
        cases b with
        | true => cases h
        | false => exact absurd (OrderedSet.contains_iff.2 hl) hf
    have hl' : l ∈ s.filter fun l => l.constant?.isNone := OrderedSet.mem_filter.2 ⟨hl, hc⟩
    dsimp only
    split
    · rename_i he
      exact absurd hl' (OrderedSet.isEmpty_iff.1 he l)
    · split
      · simp
      · exact isViolated_iff.2 ⟨l, hl', h⟩

theorem isSatisfied_ofLiteral {l : Literal} :
    (ofLiteral l).isSatisfied o = true ↔ l.truth? o = some true := by
  simp [ofLiteral, isSatisfied_reduce, OrderedSet.mem_singleton]

theorem isViolated_ofLiteral_of {l : Literal} (h : l.truth? o = some false) :
    (ofLiteral l).isViolated o = true :=
  isViolated_reduce_of (OrderedSet.mem_singleton.2 rfl) h

theorem isSatisfied_and :
    (a.and b).isSatisfied o = true ↔ a.isSatisfied o = true ∧ b.isSatisfied o = true := by
  rw [and, isSatisfied_reduce, isSatisfied_iff, isSatisfied_iff]
  constructor
  · intro h
    exact ⟨fun l hl => h l (OrderedSet.mem_union.2 (.inl hl)),
      fun l hl => h l (OrderedSet.mem_union.2 (.inr hl))⟩
  · rintro ⟨ha, hb⟩ l hl
    rcases OrderedSet.mem_union.1 hl with hl | hl
    · exact ha l hl
    · exact hb l hl

theorem isViolated_and_of (h : a.isViolated o = true ∨ b.isViolated o = true) :
    (a.and b).isViolated o = true := by
  rcases h with h | h
  · obtain ⟨l, hl, hf⟩ := isViolated_iff.1 h
    exact isViolated_reduce_of (OrderedSet.mem_union.2 (.inl hl)) hf
  · obtain ⟨l, hl, hf⟩ := isViolated_iff.1 h
    exact isViolated_reduce_of (OrderedSet.mem_union.2 (.inr hl)) hf

theorem isSatisfied_total (a : Assignment) :
    c.isSatisfied (fun id => some (a id)) = c.holds a := by
  have hl : (fun l : Literal => l.truth? (fun id => some (a id)) == some true) = Literal.holds a := by
    funext l
    rw [Literal.truth?_total]
    simp
  rw [isSatisfied, hl, holds]

theorem isSatisfied_rename (f : PredicateId → PredicateId) :
    (c.rename f).isSatisfied o = c.isSatisfied fun id => o (f id) := by
  rw [Bool.eq_iff_iff, isSatisfied_iff, isSatisfied_iff]
  simp [rename, OrderedSet.mem_image, Literal.truth?_rename]

theorem isViolated_rename (f : PredicateId → PredicateId) :
    (c.rename f).isViolated o = c.isViolated fun id => o (f id) := by
  rw [Bool.eq_iff_iff, isViolated_iff, isViolated_iff]
  simp [rename, OrderedSet.mem_image, Literal.truth?_rename]

end Clause

/-! ## Absorption -/

namespace OrderedSet

variable {α : Type} [Ord α] [Std.TransOrd α]

theorem nodup (s : OrderedSet α) : s.items.Nodup :=
  s.ascending.imp fun {a b} h e => by simp [e, Std.ReflCmp.compare_self] at h

/-- A subset that is not the whole set has fewer members. -/
theorem size_lt_of_subset {s t : OrderedSet α} (h : ∀ a ∈ s, a ∈ t) (hne : s ≠ t) :
    s.size < t.size := by
  have hsub : s.items.Subperm t.items := s.nodup.subperm h
  refine Nat.lt_of_le_of_ne hsub.length_le fun hlen => hne ?_
  have hperm := hsub.perm_of_length_le (Nat.le_of_eq hlen.symm)
  exact ext fun a => hperm.mem_iff

end OrderedSet

namespace Formula

variable {o : Outcomes} {f g : Formula}

theorem subset_of_subsumes {a b : Clause} (ha : a.isTrue = false) (hb : b.isFalse = false)
    (h : a.subsumes b = true) : ∀ l ∈ a.literals, l ∈ b.literals := by
  simpa [Clause.subsumes, ha, hb, OrderedSet.isSubset_iff] using h

theorem mem_absorb {s : OrderedSet Clause} {c : Clause} :
    c ∈ absorb s ↔ c ∈ s ∧ ∀ a ∈ s, a ≠ c → a.subsumes c = false := by
  rw [absorb, OrderedSet.mem_filter]
  refine and_congr_right fun _ => ?_
  rw [Bool.not_eq_true', ← Bool.not_eq_true, OrderedSet.any_iff]
  simp

/-- Below every clause stands one that is kept. The induction is on the number of literals: a
clause that is left out is subsumed by a smaller one. -/
theorem exists_absorb_subset {s : OrderedSet Clause}
    (hs : ∀ c ∈ s, c.isTrue = false ∧ c.isFalse = false) {c : Clause} (hc : c ∈ s) :
    ∃ a ∈ absorb s, ∀ l ∈ a.literals, l ∈ c.literals := by
  induction hn : c.literals.size using Nat.strongRecOn generalizing c with
  | ind n ih =>
    by_cases hkept : c ∈ absorb s
    · exact ⟨c, hkept, fun l hl => hl⟩
    · rw [mem_absorb] at hkept
      simp only [not_and, not_forall, Bool.not_eq_false] at hkept
      obtain ⟨a, ha, hne, hsub⟩ := hkept hc
      have hlits := subset_of_subsumes (hs a ha).1 (hs c hc).2 hsub
      have hlt : a.literals.size < n :=
        hn ▸ OrderedSet.size_lt_of_subset hlits fun e => hne (Clause.ext (congrArg _ e))
      obtain ⟨b, hb, hbsub⟩ := ih _ hlt ha rfl
      exact ⟨b, hb, fun l hl => hlits l (hbsub l hl)⟩

/-! ## Formulas -/

theorem isSatisfied_iff : f.isSatisfied o = true ↔ ∃ c ∈ f.clauses, c.isSatisfied o = true :=
  OrderedSet.any_iff

theorem isViolated_iff : f.isViolated o = true ↔ ∀ c ∈ f.clauses, c.isViolated o = true :=
  OrderedSet.all_iff

@[simp]
theorem isSatisfied_constant (b : Bool) : (constant b).isSatisfied o = b := by
  cases b <;> rfl

@[simp]
theorem isViolated_constant (b : Bool) : (constant b).isViolated o = !b := by
  cases b <;> rfl

theorem not_isSatisfied_of_isViolated (h : f.isViolated o = true) : f.isSatisfied o = false := by
  refine Bool.eq_false_iff.2 fun hs => ?_
  obtain ⟨c, hc, hsat⟩ := isSatisfied_iff.1 hs
  rw [Clause.not_isSatisfied_of_isViolated (isViolated_iff.1 h c hc)] at hsat
  cases hsat

theorem isSatisfied_reduce {s : OrderedSet Clause} :
    (reduce s).isSatisfied o = true ↔ ∃ c ∈ s, c.isSatisfied o = true := by
  have hmem (c : Clause) : c ∈ s.filter (fun c => !c.isFalse) ↔ c ∈ s ∧ c.isFalse = false := by
    simp [OrderedSet.mem_filter]
  have hfalse {c : Clause} (hsat : c.isSatisfied o = true) : c.isFalse = false := by
    refine Bool.eq_false_iff.2 fun h => ?_
    rw [Clause.eq_of_isFalse h] at hsat
    simp at hsat
  unfold reduce
  split
  · rename_i ht
    obtain ⟨c, hc, hct⟩ := OrderedSet.any_iff.1 ht
    simp only [isSatisfied_constant, true_iff]
    exact ⟨c, hc, by simp [Clause.eq_of_isTrue hct]⟩
  · rename_i ht
    have hnt (c : Clause) (hc : c ∈ s) : c.isTrue = false :=
      Bool.eq_false_iff.2 fun h => ht (OrderedSet.any_iff.2 ⟨c, hc, h⟩)
    dsimp only
    split
    · rename_i he
      simp only [isSatisfied_constant, Bool.false_eq_true, false_iff]
      rintro ⟨c, hc, hsat⟩
      exact OrderedSet.isEmpty_iff.1 he c ((hmem c).2 ⟨hc, hfalse hsat⟩)
    · rw [isSatisfied_iff]
      constructor
      · rintro ⟨c, hc, hsat⟩
        exact ⟨c, ((hmem c).1 (mem_absorb.1 hc).1).1, hsat⟩
      · rintro ⟨c, hc, hsat⟩
        have hcand (c : Clause) (h : c ∈ s.filter fun c => !c.isFalse) :
            c.isTrue = false ∧ c.isFalse = false := ⟨hnt c ((hmem c).1 h).1, ((hmem c).1 h).2⟩
        obtain ⟨a, ha, hsub⟩ := exists_absorb_subset hcand ((hmem c).2 ⟨hc, hfalse hsat⟩)
        refine ⟨a, ha, Clause.isSatisfied_iff.2 fun l hl => ?_⟩
        exact Clause.isSatisfied_iff.1 hsat l (hsub l hl)

theorem isViolated_reduce_of {s : OrderedSet Clause} (h : ∀ c ∈ s, c.isViolated o = true) :
    (reduce s).isViolated o = true := by
  unfold reduce
  split
  · rename_i ht
    obtain ⟨c, hc, hct⟩ := OrderedSet.any_iff.1 ht
    have := h c hc
    rw [Clause.eq_of_isTrue hct] at this
    simp at this
  · dsimp only
    split
    · simp
    · refine isViolated_iff.2 fun c hc => ?_
      exact h c (OrderedSet.mem_filter.1 (mem_absorb.1 hc).1).1

theorem isSatisfied_ofLiteral {l : Literal} :
    (ofLiteral l).isSatisfied o = true ↔ l.truth? o = some true := by
  simp [ofLiteral, isSatisfied_reduce, OrderedSet.mem_singleton, Clause.isSatisfied_ofLiteral]

theorem isViolated_ofLiteral_of {l : Literal} (h : l.truth? o = some false) :
    (ofLiteral l).isViolated o = true :=
  isViolated_reduce_of fun c hc => by
    rw [OrderedSet.mem_singleton.1 hc]
    exact Clause.isViolated_ofLiteral_of h

theorem mem_pairs {c : Clause} :
    c ∈ OrderedSet.ofList (f.clauses.items.flatMap fun a => g.clauses.items.map a.and) ↔
      ∃ a ∈ f.clauses, ∃ b ∈ g.clauses, a.and b = c := by
  rw [OrderedSet.mem_ofList, List.mem_flatMap]
  simp only [List.mem_map]
  rfl

theorem isSatisfied_and :
    (f.and g).isSatisfied o = true ↔ f.isSatisfied o = true ∧ g.isSatisfied o = true := by
  rw [and, isSatisfied_reduce, isSatisfied_iff, isSatisfied_iff]
  constructor
  · rintro ⟨c, hc, hsat⟩
    obtain ⟨a, ha, b, hb, rfl⟩ := mem_pairs.1 hc
    exact ⟨⟨a, ha, (Clause.isSatisfied_and.1 hsat).1⟩, ⟨b, hb, (Clause.isSatisfied_and.1 hsat).2⟩⟩
  · rintro ⟨⟨a, ha, hsa⟩, ⟨b, hb, hsb⟩⟩
    exact ⟨a.and b, mem_pairs.2 ⟨a, ha, b, hb, rfl⟩, Clause.isSatisfied_and.2 ⟨hsa, hsb⟩⟩

theorem isViolated_and_of (h : f.isViolated o = true ∨ g.isViolated o = true) :
    (f.and g).isViolated o = true := by
  refine isViolated_reduce_of fun c hc => ?_
  obtain ⟨a, ha, b, hb, rfl⟩ := mem_pairs.1 hc
  refine Clause.isViolated_and_of (h.imp ?_ ?_)
  · intro hf
    exact isViolated_iff.1 hf a ha
  · intro hg
    exact isViolated_iff.1 hg b hb

theorem isSatisfied_or :
    (f.or g).isSatisfied o = true ↔ f.isSatisfied o = true ∨ g.isSatisfied o = true := by
  rw [or, isSatisfied_reduce, isSatisfied_iff, isSatisfied_iff]
  constructor
  · rintro ⟨c, hc, hsat⟩
    exact (OrderedSet.mem_union.1 hc).imp (fun h => ⟨c, h, hsat⟩) fun h => ⟨c, h, hsat⟩
  · rintro (⟨c, hc, hsat⟩ | ⟨c, hc, hsat⟩)
    · exact ⟨c, OrderedSet.mem_union.2 (.inl hc), hsat⟩
    · exact ⟨c, OrderedSet.mem_union.2 (.inr hc), hsat⟩

theorem isViolated_or_of (hf : f.isViolated o = true) (hg : g.isViolated o = true) :
    (f.or g).isViolated o = true := by
  refine isViolated_reduce_of fun c hc => ?_
  rcases OrderedSet.mem_union.1 hc with hc | hc
  · exact isViolated_iff.1 hf c hc
  · exact isViolated_iff.1 hg c hc

/-! ## Negation -/

theorem mem_negatedLiterals {c d : Clause} :
    d ∈ OrderedSet.ofList (c.literals.items.map fun l => Clause.ofLiteral l.negate) ↔
      ∃ l ∈ c.literals, Clause.ofLiteral l.negate = d := by
  rw [OrderedSet.mem_ofList, List.mem_map]
  rfl

theorem isSatisfied_ofNegatedClause {c : Clause} :
    (ofNegatedClause c).isSatisfied o = true ↔ c.isViolated o = true := by
  rw [ofNegatedClause, isSatisfied_reduce, Clause.isViolated_iff]
  constructor
  · rintro ⟨d, hd, hsat⟩
    obtain ⟨l, hl, rfl⟩ := mem_negatedLiterals.1 hd
    exact ⟨l, hl, Literal.truth?_negate_eq_true.1 (Clause.isSatisfied_ofLiteral.1 hsat)⟩
  · rintro ⟨l, hl, hf⟩
    exact ⟨_, mem_negatedLiterals.2 ⟨l, hl, rfl⟩,
      Clause.isSatisfied_ofLiteral.2 (Literal.truth?_negate_eq_true.2 hf)⟩

theorem isViolated_ofNegatedClause_of {c : Clause} (h : c.isSatisfied o = true) :
    (ofNegatedClause c).isViolated o = true := by
  refine isViolated_reduce_of fun d hd => ?_
  obtain ⟨l, hl, rfl⟩ := mem_negatedLiterals.1 hd
  exact Clause.isViolated_ofLiteral_of
    (Literal.truth?_negate_eq_false.2 (Clause.isSatisfied_iff.1 h l hl))

theorem isSatisfied_foldl_and (fs : List Formula) :
    (fs.foldl and f).isSatisfied o = true ↔
      f.isSatisfied o = true ∧ ∀ g ∈ fs, g.isSatisfied o = true := by
  induction fs generalizing f with
  | nil => simp
  | cons g rest ih => simp [ih, isSatisfied_and, and_assoc]

theorem isViolated_foldl_and_of (fs : List Formula)
    (h : f.isViolated o = true ∨ ∃ g ∈ fs, g.isViolated o = true) :
    (fs.foldl and f).isViolated o = true := by
  induction fs generalizing f with
  | nil => simpa using h
  | cons g rest ih =>
    refine ih ?_
    rcases h with h | ⟨k, hk, hv⟩
    · exact .inl (isViolated_and_of (.inl h))
    · rcases List.mem_cons.1 hk with rfl | hk
      · exact .inl (isViolated_and_of (.inr hv))
      · exact .inr ⟨k, hk, hv⟩

/-- The conjunction of the negated clauses, whether or not there are clauses. -/
theorem isSatisfied_negate_iff_all :
    f.negate.isSatisfied o = true ↔
      ∀ g ∈ f.clauses.items.map ofNegatedClause, g.isSatisfied o = true := by
  unfold negate
  split
  · rename_i h
    simp [h]
  · rename_i first rest h
    rw [h, isSatisfied_foldl_and, List.forall_mem_cons]

theorem isSatisfied_negate : f.negate.isSatisfied o = f.isViolated o := by
  rw [Bool.eq_iff_iff, isSatisfied_negate_iff_all, isViolated_iff, List.forall_mem_map]
  exact forall₂_congr fun c _ => isSatisfied_ofNegatedClause

theorem isViolated_negate_of (h : f.isSatisfied o = true) : f.negate.isViolated o = true := by
  obtain ⟨c, hc, hsat⟩ := isSatisfied_iff.1 h
  have hmem : ofNegatedClause c ∈ f.clauses.items.map ofNegatedClause := List.mem_map_of_mem hc
  have hv := isViolated_ofNegatedClause_of hsat
  unfold negate
  split
  · rename_i he
    rw [he] at hmem
    cases hmem
  · rename_i first rest he
    rw [he] at hmem
    refine isViolated_foldl_and_of rest ?_
    rcases List.mem_cons.1 hmem with rfl | hr
    · exact .inl hv
    · exact .inr ⟨_, hr, hv⟩

/-! ## Renaming, and full assignments -/

theorem isSatisfied_rename (r : PredicateId → PredicateId) :
    (f.rename r).isSatisfied o = f.isSatisfied fun id => o (r id) := by
  rw [Bool.eq_iff_iff, isSatisfied_iff, isSatisfied_iff]
  simp [rename, OrderedSet.mem_image, Clause.isSatisfied_rename]

theorem isViolated_rename (r : PredicateId → PredicateId) :
    (f.rename r).isViolated o = f.isViolated fun id => o (r id) := by
  rw [Bool.eq_iff_iff, isViolated_iff, isViolated_iff]
  simp [rename, OrderedSet.mem_image, Clause.isViolated_rename]

theorem isSatisfied_total (a : Assignment) :
    f.isSatisfied (fun id => some (a id)) = f.holds a := by
  have hc : Clause.isSatisfied (fun id => some (a id)) = Clause.holds a := by
    funext c
    exact Clause.isSatisfied_total a
  rw [isSatisfied, hc, holds]

/-! ## Standing for a truth value -/

/-- The formula confirms a truth value that may be unknown: it is satisfied where the value is
true and violated where the value is false. -/
structure Decides (o : Outcomes) (f : Formula) (truth : Option Bool) : Prop where
  satisfied : truth = some true → f.isSatisfied o = true
  violated : truth = some false → f.isViolated o = true

variable {x y z : Option Bool}

theorem decides_constant (b : Bool) : (constant b).Decides o (some b) := by
  constructor <;> rintro ⟨⟩ <;> simp

theorem decides_ofPredicate (id : PredicateId) : (ofLiteral (.ofPredicate id)).Decides o (o id) where
  satisfied h := isSatisfied_ofLiteral.2 (by simp [Literal.ofPredicate, Literal.truth?, h])
  violated h := isViolated_ofLiteral_of (by simp [Literal.ofPredicate, Literal.truth?, h])

theorem Decides.negate (h : f.Decides o x) : f.negate.Decides o (x.map (!·)) where
  satisfied hx := by
    rw [isSatisfied_negate]
    exact h.violated (by simpa using hx)
  violated hx := isViolated_negate_of (h.satisfied (by simpa using hx))

theorem Decides.and (hf : f.Decides o x) (hg : g.Decides o y)
    (ht : z = some true → x = some true ∧ y = some true)
    (hz : z = some false → x = some false ∨ y = some false) : (f.and g).Decides o z where
  satisfied h := isSatisfied_and.2 ⟨hf.satisfied (ht h).1, hg.satisfied (ht h).2⟩
  violated h := isViolated_and_of ((hz h).imp hf.violated hg.violated)

theorem Decides.or (hf : f.Decides o x) (hg : g.Decides o y)
    (ht : z = some true → x = some true ∨ y = some true)
    (hz : z = some false → x = some false ∧ y = some false) : (f.or g).Decides o z where
  satisfied h := isSatisfied_or.2 ((ht h).imp hf.satisfied hg.satisfied)
  violated h := isViolated_or_of (hf.violated (hz h).1) (hg.violated (hz h).2)

theorem Decides.rename {r : PredicateId → PredicateId} (h : f.Decides (fun id => o (r id)) x) :
    (f.rename r).Decides o x where
  satisfied hx := by
    rw [isSatisfied_rename]
    exact h.satisfied hx
  violated hx := by
    rw [isViolated_rename]
    exact h.violated hx

end Formula
end PolicyDecision
