import PolicyDecision.Proofs.Index.History

/-!
# PolicyDecision.Proofs.Index.ClauseLimit

What the limit of clauses decides about a target.

A limit refuses formulas and changes none. So there is one formula of a target, whatever the limit,
and some numbers of clauses are met on the way to it; a limit lets the formula pass if it lets all
of them.

* `Formula.IsNormal.one_le_size`, `Formula.size_and_le`: a formula has some clause, and a
  conjunction has no more than pairs of clauses.
* `Formula.Connective`: the connectives, and what is counted for them.
* `Expression.translate`: the formula of an expression, without a limit, and the numbers on the way.
* `Expression.compile_eq_ok_iff`: when an expression is compiled under a limit, and into what.
* `compileTarget_eq_error_iff`: when a target is refused, and why.
* `CanonicalIndex.clause_limit`: the limit of targets and of indexes.
-/

namespace PolicyDecision

/-! ## Numbers of clauses -/

theorem OrderedSet.size_ofList_le {α : Type} [Ord α] [Std.TransOrd α] [Std.LawfulEqOrd α]
    (l : List α) : (ofList l).size ≤ l.length :=
  (List.subperm_of_subset (ofList l).nodup fun _ ha => mem_ofList.1 ha).length_le

namespace Formula

variable {f g : Formula}

theorem size_constant (b : Bool) : (constant b).size = 1 := rfl

/-- Reducing leaves no more clauses, except for an empty set. -/
theorem size_reduce_le {s : OrderedSet Clause} (h : 1 ≤ s.size) : (reduce s).size ≤ s.size := by
  unfold reduce
  split
  · exact h
  · dsimp only
    split
    · exact h
    · exact (List.length_filter_le _ _).trans (List.length_filter_le _ _)

theorem size_ofLiteral_le (l : Literal) : (ofLiteral l).size ≤ 1 := size_reduce_le (Nat.le_refl 1)

theorem IsNormal.one_le_size (h : f.IsNormal) : 1 ≤ f.size := by
  obtain h | ⟨b, rfl⟩ := h
  · obtain ⟨c, hc⟩ := h.nonempty
    exact List.length_pos_of_mem hc
  · exact (size_constant b).ge

/-- A conjunction has at most one clause for each pair of clauses. -/
theorem size_and_le (hf : f.IsNormal) (hg : g.IsNormal) : (f.and g).size ≤ f.size * g.size := by
  have hpairs : (f.clauses.items.flatMap fun a => g.clauses.items.map a.and).length =
      f.size * g.size := by
    simp [List.length_flatMap, size, OrderedSet.size]
  obtain ⟨a, ha⟩ := List.exists_mem_of_length_pos hf.one_le_size
  obtain ⟨c, hc⟩ := List.exists_mem_of_length_pos hg.one_le_size
  have hmem : a.and c ∈ OrderedSet.ofList
      (f.clauses.items.flatMap fun a => g.clauses.items.map a.and) :=
    OrderedSet.mem_ofList.2 (List.mem_flatMap.2 ⟨a, ha, List.mem_map_of_mem hc⟩)
  rw [and, ← hpairs]
  exact (size_reduce_le (List.length_pos_of_mem hmem)).trans (OrderedSet.size_ofList_le _)

/-! ### Connectives -/

/-- A connective of formulas, beside the one that the limit of clauses makes of it. -/
structure Connective where
  join : Formula → Formula → Formula
  /-- The number of clauses that the limit has to let pass. -/
  count : Formula → Formula → Nat
  bounded : Nat → Formula → Formula → Except Error Formula
  normal : ∀ {f g}, f.IsNormal → g.IsNormal → (join f g).IsNormal
  size_le : ∀ {f g}, f.IsNormal → g.IsNormal → (join f g).size ≤ count f g
  bounded_eq : ∀ limit {f g}, f.IsNormal → g.IsNormal → bounded limit f g =
    if limit < count f g then .error (.tooManyClauses (count f g) limit) else .ok (join f g)

/-- The pairs of clauses are counted. -/
def Connective.conjunction : Connective where
  join := and
  count f g := f.size * g.size
  bounded := Formula.conjunction
  normal _ _ := isNormal_and _ _
  size_le := size_and_le
  bounded_eq limit f g hf hg := by
    unfold Formula.conjunction
    split
    · rfl
    · rename_i hpairs
      -- no more clauses than pairs of clauses, so the second check adds nothing
      exact if_neg fun hlt => hpairs (Nat.lt_of_lt_of_le hlt (size_and_le hf hg))

def Connective.disjunction : Connective where
  join := or
  count f g := (f.or g).size
  bounded := Formula.disjunction
  normal := IsNormal.or
  size_le _ _ := Nat.le_refl _
  bounded_eq _ _ _ _ _ := rfl

end Formula

/-! ## Translating without a limit -/

namespace PredicateTable

variable {t u v : PredicateTable} {e : Expression}

/-- The number of an expression in a table that never runs out of numbers. -/
def record (t : PredicateTable) (e : Expression) : PredicateId × PredicateTable :=
  match t.find? e with
  | some id => (id, t)
  | none => (t.size, ⟨t.predicates ++ [e]⟩)

/-- The numbers last for the predicates that the second table has beside those of the first one. -/
def HasRoom (t u : PredicateTable) : Prop := u = t ∨ u.size ≤ capacity

theorem extends_record (t : PredicateTable) (e : Expression) : t.Extends (t.record e).2 := by
  unfold record
  split
  · exact .refl t
  · exact List.prefix_append _ _

theorem Extends.size_le (h : t.Extends u) : t.size ≤ u.size := List.IsPrefix.length_le h

theorem Extends.antisymm (h : t.Extends u) (h' : u.Extends t) : u = t :=
  congrArg mk (List.IsPrefix.eq_of_length_le h' h.size_le)

theorem hasRoom_trans_iff (h : t.Extends u) (h' : u.Extends v) :
    t.HasRoom v ↔ t.HasRoom u ∧ u.HasRoom v := by
  constructor
  · rintro (rfl | hsize)
    · obtain rfl : u = v := h.antisymm h'
      exact ⟨.inl rfl, .inl rfl⟩
    · exact ⟨.inr (h'.size_le.trans hsize), .inr hsize⟩
  · rintro ⟨hu, rfl | hsize⟩
    · exact hu
    · exact .inr hsize

/-- An expression gets its number if there is one left, or if it has one. -/
theorem intern_eq (t : PredicateTable) (e : Expression) :
    (t.HasRoom (t.record e).2 ∧ t.intern e = .ok (t.record e)) ∨
      (¬ t.HasRoom (t.record e).2 ∧ t.intern e = .error .tooManyPredicates) := by
  unfold record intern HasRoom
  cases t.find? e with
  | some id => exact .inl ⟨.inl rfl, rfl⟩
  | none =>
    have hsize : (⟨t.predicates ++ [e]⟩ : PredicateTable).size = t.size + 1 := by simp [size]
    have hne : (⟨t.predicates ++ [e]⟩ : PredicateTable) ≠ t := fun he => by
      rw [he] at hsize
      omega
    dsimp only
    rw [hsize]
    by_cases hlt : t.size < capacity
    · exact .inl ⟨.inr hlt, if_pos hlt⟩
    · exact .inr ⟨fun h => h.elim hne hlt, if_neg hlt⟩

end PredicateTable

/-- What an expression comes to when nothing is refused. -/
structure Translation where
  formula : Formula
  table : PredicateTable
  /-- The numbers of clauses that a limit has to let pass, in the order in which they are met. -/
  counts : List Nat

namespace Translation

def ofPredicate (imports : Imports) (e : Expression) (t : PredicateTable) : Translation :=
  let (id, t) := t.record (e.resolveImports imports)
  ⟨.ofLiteral (.ofPredicate id), t, []⟩

def negate (x : Translation) : Translation :=
  { x with formula := x.formula.negate, counts := x.counts ++ [x.formula.negate.size] }

/-- Join another part, which is translated over the table that the first one leaves. -/
def andThen (x : Translation) (second : PredicateTable → Translation) (k : Formula.Connective) :
    Translation :=
  let y := second x.table
  ⟨k.join x.formula y.formula, y.table, x.counts ++ y.counts ++ [k.count x.formula y.formula]⟩

/-- The formula, unless some number of clauses exceeds the limit. -/
def outcome (limit : Nat) (x : Translation) : Except Error Formula :=
  match x.counts.find? (limit < ·) with
  | none => .ok x.formula
  | some n => .error (.tooManyClauses n limit)

/-- A translation over a table: more predicates, and a formula that has not more clauses than were
counted. -/
structure IsOver (t : PredicateTable) (x : Translation) : Prop where
  extended : t.Extends x.table
  normal : x.formula.IsNormal
  size_le : ∀ limit, 1 ≤ limit → (∀ n ∈ x.counts, n ≤ limit) → x.formula.size ≤ limit

variable {t : PredicateTable} {x : Translation} {limit n : Nat} {counts : List Nat}

theorem outcome_eq_error (h : x.counts.find? (limit < ·) = some n) :
    x.outcome limit = .error (.tooManyClauses n limit) := by
  rw [outcome, h]

/-- The last number is the only one that is left to be checked. -/
theorem outcome_concat (h : counts.find? (limit < ·) = none) (f : Formula) :
    outcome limit ⟨f, t, counts ++ [n]⟩ =
      if limit < n then .error (.tooManyClauses n limit) else .ok f := by
  rw [outcome, List.find?_append, h, Option.none_or, List.find?_singleton]
  by_cases hn : limit < n <;> simp [hn]

theorem outcome_eq_ok_iff {f : Formula} :
    x.outcome limit = .ok f ↔ (∀ n ∈ x.counts, n ≤ limit) ∧ f = x.formula := by
  rw [outcome]
  cases hfind : x.counts.find? (limit < ·) with
  | none =>
    have hle : ∀ n ∈ x.counts, n ≤ limit := by simpa using hfind
    exact ⟨fun h => ⟨hle, (Except.ok.inj h).symm⟩, fun h => congrArg Except.ok h.2.symm⟩
  | some n =>
    have hlt : limit < n := by simpa using List.find?_some hfind
    have hmem := List.mem_of_find?_eq_some hfind
    exact iff_of_false (fun h => by cases h) fun h => Nat.not_le_of_lt hlt (h.1 n hmem)

theorem isOver_constant (b : Bool) (t : PredicateTable) : IsOver t ⟨.constant b, t, []⟩ :=
  ⟨.refl t, Formula.isNormal_constant b, fun _ hlimit _ => hlimit⟩

theorem isOver_ofPredicate (imports : Imports) (e : Expression) (t : PredicateTable) :
    IsOver t (ofPredicate imports e t) where
  extended := t.extends_record _
  normal := Formula.isNormal_ofLiteral (.ofPredicate _)
  size_le _ hlimit _ := (Formula.size_ofLiteral_le (.ofPredicate _)).trans hlimit

theorem IsOver.negate (h : x.IsOver t) : x.negate.IsOver t where
  extended := h.extended
  normal := Formula.isNormal_negate x.formula
  size_le _ _ hcounts := hcounts _ (List.mem_append_right _ (List.mem_singleton.2 rfl))

theorem IsOver.andThen {second : PredicateTable → Translation} (h : x.IsOver t)
    (hsecond : (second x.table).IsOver x.table) (k : Formula.Connective) :
    (x.andThen second k).IsOver t where
  extended := h.extended.trans hsecond.extended
  normal := k.normal h.normal hsecond.normal
  size_le _ _ hcounts := (k.size_le h.normal hsecond.normal).trans
    (hcounts _ (List.mem_append_right _ (List.mem_singleton.2 rfl)))

end Translation

namespace Expression

/-- The formula of an expression. Formulas are counted where they are joined or negated. -/
def translate (imports : Imports) : Expression → PredicateTable → Translation
  | .basic (.value (.bool b)) [] none, t => ⟨.constant b, t, []⟩
  | .basic (.group inner) [] none, t => inner.translate imports t
  | .unary .not operand, t => (operand.translate imports t).negate
  | .binary op left right, t =>
    match op with
    | .and | .eagerAnd =>
      (left.translate imports t).andThen (right.translate imports) .conjunction
    | .or | .eagerOr =>
      (left.translate imports t).andThen (right.translate imports) .disjunction
    | op => .ofPredicate imports (.binary op left right) t
  | e, t => .ofPredicate imports e t

/-- What holds of constants and predicates, and of an expression whenever it holds of its operands.
Both ways to translate an expression go along. -/
theorem target_induction {imports : Imports} {motive : Expression → Prop}
    (constant : ∀ b, motive (.basic (.value (.bool b)) [] none))
    (group : ∀ inner, motive inner → motive (.basic (.group inner) [] none))
    (not : ∀ operand, motive operand → motive (.unary .not operand))
    (connective : ∀ (k : Formula.Connective) (e left right : Expression),
      (∀ limit t, e.compile imports limit t =
        (left.compile imports limit t).andThen (right.compile imports limit) (k.bounded limit)) →
      (∀ t, e.translate imports t =
        (left.translate imports t).andThen (right.translate imports) k) →
      motive left → motive right → motive e)
    (predicate : ∀ e : Expression,
      (∀ limit t, e.compile imports limit t = compilePredicate imports e t) →
      (∀ t, e.translate imports t = .ofPredicate imports e t) → motive e)
    (e : Expression) : motive e := by
  induction e using Expression.leaves.induct with
  | case1 b => exact constant b
  | case2 inner ih => exact group inner ih
  | case3 operand ih => exact not operand ih
  | case4 left right ihl ihr | case5 left right ihl ihr =>
    exact connective .conjunction _ left right (fun _ _ => by rw [compile]; rfl)
      (fun _ => by rw [translate]) ihl ihr
  | case6 left right ihl ihr | case7 left right ihl ihr =>
    exact connective .disjunction _ left right (fun _ _ => by rw [compile]; rfl)
      (fun _ => by rw [translate]) ihl ihr
  | case8 left right op hand heagerAnd hor heagerOr =>
    exact predicate _ (fun _ _ => by rw [compile] <;> assumption)
      fun _ => by rw [translate] <;> assumption
  | case9 e hbool hgroup hnot hbinary =>
    exact predicate _ (fun _ _ => by rw [compile] <;> assumption)
      fun _ => by rw [translate] <;> assumption

theorem isOver_translate (imports : Imports) (e : Expression) (t : PredicateTable) :
    (e.translate imports t).IsOver t := by
  induction e using target_induction generalizing t with
  | constant b => exact Translation.isOver_constant b t
  | group inner ih => exact ih t
  | not operand ih => exact (ih t).negate
  | connective k e left right _ htranslate ihl ihr =>
    rw [htranslate]
    exact (ihl t).andThen (ihr _) k
  | predicate e _ htranslate =>
    rw [htranslate]
    exact Translation.isOver_ofPredicate imports e t

end Expression

/-! ## Compiling under a limit -/

namespace Compilation

/-- A compilation under a limit, beside the translation. Where the numbers last it comes to the
formula of the translation, or to the refusal of its first number above the limit; and they do last
where it comes to a formula. -/
structure Yields (limit : Nat) (t : PredicateTable) (c : Compilation) (x : Translation) : Prop where
  outcome : t.HasRoom x.table → c.1 = x.outcome limit
  table : ∀ f, c.1 = .ok f → c.2 = x.table ∧ t.HasRoom x.table

variable {limit : Nat} {t u : PredicateTable} {c : Compilation} {x : Translation} {f : Formula}

namespace Yields

theorem constant (b : Bool) (t : PredicateTable) :
    Yields limit t (.ok (.constant b), t) ⟨.constant b, t, []⟩ :=
  ⟨fun _ => rfl, fun _ _ => ⟨rfl, .inl rfl⟩⟩

theorem predicate (imports : Imports) (e : Expression) (t : PredicateTable) :
    Yields limit t (compilePredicate imports e t) (.ofPredicate imports e t) := by
  unfold compilePredicate
  obtain ⟨hroom, hi⟩ | ⟨hfull, hi⟩ := t.intern_eq (e.resolveImports imports)
  · rw [hi]
    exact ⟨fun _ => rfl, fun _ _ => ⟨rfl, hroom⟩⟩
  · rw [hi]
    exact ⟨fun hroom => absurd hroom hfull, nofun⟩

/-- Where the numbers last, the formula goes on if all counts are let pass. -/
theorem cases (h : Yields limit t c x) (hroom : t.HasRoom x.table) :
    (x.counts.find? (limit < ·) = none ∧ c = (.ok x.formula, x.table)) ∨
      ∃ n u, x.counts.find? (limit < ·) = some n ∧ c = (.error (.tooManyClauses n limit), u) := by
  obtain ⟨r, u⟩ := c
  have houtcome : r = x.outcome limit := h.outcome hroom
  unfold Translation.outcome at houtcome
  cases hfind : x.counts.find? (limit < ·) with
  | none =>
    simp only [hfind] at houtcome
    subst houtcome
    exact .inl ⟨rfl, congrArg _ (h.table _ rfl).1⟩
  | some n =>
    simp only [hfind] at houtcome
    exact .inr ⟨n, u, rfl, congrArg (·, u) houtcome⟩

theorem negate (h : Yields limit t c x) :
    Yields limit t (c.map fun f => f.negate.bounded limit) x.negate where
  outcome hroom := by
    obtain ⟨hnone, rfl⟩ | ⟨n, u, hsome, rfl⟩ := h.cases hroom
    · exact (Translation.outcome_concat hnone x.formula.negate).symm
    · refine (Translation.outcome_eq_error ?_).symm
      rw [Translation.negate, List.find?_append, hsome, Option.some_or]
  table f he := by
    obtain ⟨g, hg, -⟩ := map_eq_ok he
    exact h.table g hg

theorem andThen {second : PredicateTable → Compilation} {second' : PredicateTable → Translation}
    (h : Yields limit t c x) (hx : x.IsOver t)
    (hsecond : Yields limit x.table (second x.table) (second' x.table))
    (hy : (second' x.table).IsOver x.table) (k : Formula.Connective) :
    Yields limit t (c.andThen second (k.bounded limit)) (x.andThen second' k) where
  outcome hroom := by
    obtain ⟨hroomx, hroomy⟩ :=
      (PredicateTable.hasRoom_trans_iff hx.extended hy.extended).1 hroom
    obtain ⟨hnone, rfl⟩ | ⟨n, u, hsome, rfl⟩ := h.cases hroomx
    · rw [andThen_ok]
      obtain ⟨hnone', he⟩ | ⟨n, u, hsome, he⟩ := hsecond.cases hroomy
      · have hpassed : (x.counts ++ (second' x.table).counts).find? (limit < ·) = none := by
          rw [List.find?_append, hnone, hnone', Option.none_or]
        rw [he]
        exact (k.bounded_eq limit hx.normal hy.normal).trans
          (Translation.outcome_concat hpassed _).symm
      · rw [he]
        refine (Translation.outcome_eq_error ?_).symm
        simp only [Translation.andThen, List.find?_append, hnone, hsome, Option.none_or,
          Option.some_or]
    · refine (Translation.outcome_eq_error ?_).symm
      simp only [Translation.andThen, List.find?_append, hsome, Option.some_or]
  table f he := by
    obtain ⟨g, g', hg, hg', hlast⟩ := andThen_eq_ok he
    obtain ⟨hfirst, hroomx⟩ := h.table g hg
    rw [hfirst] at hg' hlast
    obtain ⟨hrest, hroomy⟩ := hsecond.table g' hg'
    exact ⟨hlast.trans hrest,
      (PredicateTable.hasRoom_trans_iff hx.extended hy.extended).2 ⟨hroomx, hroomy⟩⟩

end Yields

end Compilation

theorem Expression.yields_compile (imports : Imports) (limit : Nat) (e : Expression)
    (t : PredicateTable) : (e.compile imports limit t).Yields limit t (e.translate imports t) := by
  have hover := isOver_translate imports
  induction e using target_induction generalizing t with
  | constant b => exact .constant b t
  | group inner ih => exact ih t
  | not operand ih => exact (ih t).negate
  | connective k e left right hcompile htranslate ihl ihr =>
    rw [hcompile, htranslate]
    exact (ihl t).andThen (hover left t) (ihr _) (hover right _) k
  | predicate e hcompile htranslate =>
    rw [hcompile, htranslate]
    exact .predicate imports e t

section

variable {imports : Imports} {limit : Nat} {e : Expression} {target : Option Expression}
  {t u : PredicateTable} {f : Formula}

/-- An expression is compiled under a limit into its translation, if the numbers last for its
predicates and no number of clauses exceeds the limit. -/
theorem Expression.compile_eq_ok_iff :
    e.compile imports limit t = (.ok f, u) ↔
      t.HasRoom (e.translate imports t).table ∧ (∀ n ∈ (e.translate imports t).counts, n ≤ limit) ∧
        f = (e.translate imports t).formula ∧ u = (e.translate imports t).table := by
  have hyields := yields_compile imports limit e t
  rw [Prod.ext_iff]
  constructor
  · rintro ⟨hf, hu⟩
    obtain ⟨htable, hroom⟩ := hyields.table f hf
    obtain ⟨hcounts, hformula⟩ :=
      Translation.outcome_eq_ok_iff.1 ((hyields.outcome hroom).symm.trans hf)
    exact ⟨hroom, hcounts, hformula, hu.symm.trans htable⟩
  · rintro ⟨hroom, hcounts, hformula, hu⟩
    have hf := (hyields.outcome hroom).trans
      (Translation.outcome_eq_ok_iff.2 ⟨hcounts, hformula⟩)
    exact ⟨hf, (hyields.table f hf).1.trans hu.symm⟩

/-- The formula of a target that is compiled under a limit. -/
theorem compileTarget_eq_ok (h : compileTarget imports limit target t = (.ok f, u)) :
    f.IsNormal ∧ (1 ≤ limit → f.size ≤ limit) ∧
      ∀ limit', limit ≤ limit' → compileTarget imports limit' target t = (.ok f, u) := by
  unfold compileTarget at h ⊢
  cases target with
  | none =>
    cases h
    exact ⟨Formula.isNormal_constant true, id, fun _ _ => rfl⟩
  | some e =>
    dsimp only at h ⊢
    split at h
    · cases h
    · rename_i hfinder
      have hover := e.isOver_translate imports t
      obtain ⟨hroom, hcounts, rfl, rfl⟩ := Expression.compile_eq_ok_iff.1 h
      refine ⟨hover.normal, fun hlimit => hover.size_le limit hlimit hcounts, fun limit' hle => ?_⟩
      rw [if_neg hfinder]
      exact Expression.compile_eq_ok_iff.2
        ⟨hroom, fun n hn => (hcounts n hn).trans hle, rfl, rfl⟩

/-- How a target is refused, where the numbers last for its predicates. -/
theorem compileTarget_eq_error_iff {err : Error}
    (h : ∀ e, target = some e → (e.translate imports t).table.size ≤ PredicateTable.capacity) :
    (compileTarget imports limit target t).1 = .error err ↔ ∃ e, target = some e ∧
      ((e.containsFinder = true ∧ err = .attributeFinderInTarget) ∨
        (e.containsFinder = false ∧ ∃ n, (e.translate imports t).counts.find? (limit < ·) = some n ∧
          err = .tooManyClauses n limit)) := by
  unfold compileTarget
  cases target with
  | none => simp
  | some e =>
    simp only [Option.some.injEq, exists_eq_left']
    split
    · rename_i hfinder
      simp [hfinder, eq_comm]
    · rename_i hfinder
      rw [(e.yields_compile imports limit t).outcome (.inr (h e rfl)), Translation.outcome]
      split
      · rename_i hnone
        simp [hfinder, hnone]
      · rename_i n hsome
        simp [hfinder, hsome, eq_comm]

end

/-! ## Indexes -/

namespace IndexedDocument

variable {maxClauses : Nat} {t : PredicateTable} {d : IndexedDocument}

theorem size_compile_le (hmax : 1 ≤ maxClauses) (d : Document) (t : PredicateTable) :
    (CanonicalIndex.compile maxClauses d t).1.formula.size ≤ maxClauses := by
  unfold CanonicalIndex.compile
  rcases hc : compileTarget d.imports maxClauses d.target t with ⟨e | f, u⟩
  · exact hmax
  · exact (compileTarget_eq_ok hc).2.1 hmax

theorem IsCompiledIn.size_le (h : d.IsCompiledIn maxClauses t) (ht : t.IsDistinct)
    (hmax : 1 ≤ maxClauses) : d.formula.size ≤ maxClauses := by
  obtain ⟨s, hs, -, hf⟩ := h
  rw [hf.size_eq (CanonicalIndex.isDistinct_compile maxClauses d.document hs).1 ht]
  exact size_compile_le hmax d.document s

end IndexedDocument

namespace CanonicalIndex

/-- A target that is compiled under some limit has a formula within the limit, and every greater
limit gives the same formula and the same table. While the numbers last for its predicates, a target
is refused only for an attribute finder, or for the first number of clauses above the limit, which
is that of a negation, a disjunction or the pairs of a conjunction. So the formulas of an index are
within its limit, and a document that was refused has the formula `true`. -/
theorem clause_limit (imports : Imports) (target : Option Expression) (t : PredicateTable) :
    (∀ limit f u, 1 ≤ limit → compileTarget imports limit target t = (.ok f, u) →
      1 ≤ f.size ∧ f.size ≤ limit ∧
        ∀ limit', limit ≤ limit' → compileTarget imports limit' target t = (.ok f, u)) ∧
    ((∀ e, target = some e → (e.translate imports t).table.size ≤ PredicateTable.capacity) →
      ∀ limit err, (compileTarget imports limit target t).1 = .error err ↔ ∃ e, target = some e ∧
        ((e.containsFinder = true ∧ err = .attributeFinderInTarget) ∨
          (e.containsFinder = false ∧
            ∃ n, (e.translate imports t).counts.find? (limit < ·) = some n ∧
              err = .tooManyClauses n limit))) ∧
    ∀ maxClauses strategy batches index,
      (empty maxClauses strategy).applyEach batches = .ok index → 1 ≤ index.maxClauses →
      ∀ x ∈ index.documents.values, 1 ≤ x.formula.size ∧ x.formula.size ≤ index.maxClauses ∧
        (x.compileError.isSome → x.formula = .constant true) := by
  refine ⟨fun limit f u hlimit hc => ?_, fun hsize _ _ => compileTarget_eq_error_iff hsize, ?_⟩
  · obtain ⟨hnormal, hsize, hmono⟩ := compileTarget_eq_ok hc
    exact ⟨hnormal.one_le_size, hsize hlimit, hmono⟩
  · intro maxClauses strategy batches index hindex hmax x hx
    obtain ⟨b, hb, rfl⟩ := List.mem_map.1 hx
    have htracked := (isTracked_of_applyEach hindex).publications
    have hcompiled := htracked.compiled b hb
    rw [(isTracked_of_applyEach hindex).limit] at hmax ⊢
    exact ⟨(hcompiled.isNormal htracked.distinct).one_le_size,
      hcompiled.size_le htracked.distinct hmax,
      ((isCoherent_of_applyEach hindex).publications.linked b hb).always⟩

/-- The target `!(a & b)`. -/
def negatedPair : Document :=
  { name := "pair", entitlement := .permit
    target := some (.unary .not (.basic (.group (.binary .and (.basic (.identifier "a") [] none)
      (.basic (.identifier "b") [] none))) [] none)) }

/-- It has two clauses, one more than a limit of one lets pass. -/
theorem clause_limit_negatedPair :
    (∃ f u, compileTarget .empty 2 negatedPair.target .empty = (.ok f, u) ∧ f.size ≤ 2 ∧
      compileTarget .empty 64 negatedPair.target .empty = (.ok f, u)) ∧
    (compileTarget .empty 1 negatedPair.target .empty).1 = .error (.tooManyClauses 2 1) ∧
    ∃ index x, (empty 1 fun _ => [7]).applyEach [UpdateBatch.publish {} negatedPair] = .ok index ∧
      x ∈ index.documents.values ∧ x.compileError = some (.tooManyClauses 2 1) ∧
      x.formula = .constant true := by
  obtain ⟨hok, herror, hindex⟩ := clause_limit .empty negatedPair.target .empty
  have hcompiled : compileTarget .empty 2 negatedPair.target .empty = (.ok _, _) := rfl
  obtain ⟨-, hsize, hmono⟩ := hok 2 _ _ (by decide) hcompiled
  refine ⟨⟨_, _, hcompiled, hsize, hmono 64 (by decide)⟩, ?_, ?_⟩
  · refine (herror ?_ 1 _).2 ⟨_, rfl, .inr ⟨rfl, 2, rfl, rfl⟩⟩
    rintro _ ⟨⟩
    decide
  · have hpublished : (empty 1 fun _ => [7]).applyEach [UpdateBatch.publish {} negatedPair] =
      .ok _ := rfl
    obtain ⟨-, -, hconstant⟩ := hindex 1 _ _ _ hpublished (by decide) _ (.head _)
    exact ⟨_, _, hpublished, .head _, rfl, hconstant rfl⟩

end CanonicalIndex
end PolicyDecision
