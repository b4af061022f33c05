import PolicyDecision.Proofs.Index.Tables

/-!
# PolicyDecision.Proofs.Index.Order

The order in which predicates are evaluated, whatever a strategy proposes.

A strategy may repeat predicates, name unknown ones and leave others out. The order takes from the
proposal what is referenced, each predicate at its first occurrence, and appends what was left out.

* `Repairs`: what the two parts of such an order are, by their members and by their sequence.
* `Repairs.unique`: a proposal is repaired in one way only.
* `checkedOrder_eq_iff`: the checked order is that repair.
* `checkedOrder_eq_self`: a proposal of exactly the referenced predicates stays as it is.
* `MatchingTables.exists_repairs_layout`: the orders of all tables.
* `checkedOrder_exact`: the checked orders of all strategies, and of those that can be configured.
-/

namespace PolicyDecision

/-- The referenced predicates that a proposal has, in the sequence of their first occurrences, and
those that it does not have, in ascending order. -/
structure Repairs (proposal referenced placed missing : List PredicateId) : Prop where
  mem_placed : ∀ id, id ∈ placed ↔ id ∈ proposal ∧ id ∈ referenced
  by_occurrence : placed.Pairwise fun i j => proposal.idxOf i < proposal.idxOf j
  mem_missing : ∀ id, id ∈ missing ↔ id ∈ referenced ∧ id ∉ proposal
  ascending : missing.Pairwise (· < ·)

variable {references : ReferenceCounts} {strategy : OrderStrategy}

/-! ## First occurrences -/

theorem ne_of_mem_eraseDups_filter {l : List PredicateId} {p : PredicateId → Bool}
    {i k : PredicateId} (hk : p k = false) (hi : i ∈ (l.filter p).eraseDups) : k ≠ i := by
  rintro rfl
  rw [List.mem_eraseDups, List.mem_filter, hk] at hi
  cases hi.2

/-- The induction is on the list that is filtered: to erase the repetitions of its head is to filter
its tail once more. -/
theorem pairwise_idxOf_eraseDups_filter (l : List PredicateId) (p : PredicateId → Bool) :
    (l.filter p).eraseDups.Pairwise fun i j => l.idxOf i < l.idxOf j := by
  induction l generalizing p with
  | nil => exact .nil
  | cons k rest ih =>
    have htail (q : PredicateId → Bool) (hk : q k = false) :
        (rest.filter q).eraseDups.Pairwise fun i j =>
          (k :: rest).idxOf i < (k :: rest).idxOf j := by
      refine (ih q).imp_of_mem fun {i j} hi hj h => ?_
      rw [List.idxOf_cons_ne rest (ne_of_mem_eraseDups_filter hk hi),
        List.idxOf_cons_ne rest (ne_of_mem_eraseDups_filter hk hj)]
      exact Nat.succ_lt_succ h
    cases hk : p k with
    | false =>
      rw [List.filter_cons_of_neg (by simp [hk])]
      exact htail p hk
    | true =>
      have hne : ((!k == k) && p k) = false := by simp
      rw [List.filter_cons_of_pos hk, List.eraseDups_cons, List.filter_filter]
      refine List.pairwise_cons.2 ⟨fun i hi => ?_, htail _ hne⟩
      rw [List.idxOf_cons_self, List.idxOf_cons_ne rest (ne_of_mem_eraseDups_filter hne hi)]
      exact Nat.succ_pos _

theorem pairwise_idxOf_self {l : List PredicateId} (h : l.Nodup) :
    l.Pairwise fun i j => l.idxOf i < l.idxOf j := by
  refine List.pairwise_iff_getElem.2 fun i j hi hj hij => ?_
  rw [h.idxOf_getElem i hi, h.idxOf_getElem j hj]
  exact hij

/-! ## The repair -/

/-- Lists that ascend by one key are the same if their members are. -/
theorem eq_of_pairwise_key {key : PredicateId → Nat} {l m : List PredicateId}
    (hl : l.Pairwise fun i j => key i < key j) (hm : m.Pairwise fun i j => key i < key j)
    (h : ∀ id, id ∈ l ↔ id ∈ m) : l = m := by
  have hnodup {l : List PredicateId} (hl : l.Pairwise fun i j => key i < key j) : l.Nodup := by
    refine hl.imp fun {i j} hlt he => ?_
    rw [he] at hlt
    exact Nat.lt_irrefl _ hlt
  have hperm : l.Perm m := (List.perm_ext_iff_of_nodup (hnodup hl) (hnodup hm)).2 h
  refine hperm.eq_of_pairwise (fun i j _ _ hij hji => ?_) hl hm
  exact absurd hij (Nat.lt_asymm hji)

theorem Repairs.unique {proposal referenced placed missing placed' missing' : List PredicateId}
    (h : Repairs proposal referenced placed missing)
    (h' : Repairs proposal referenced placed' missing') : placed = placed' ∧ missing = missing' := by
  refine ⟨eq_of_pairwise_key h.by_occurrence h'.by_occurrence fun id => ?_,
    eq_of_pairwise_key h.ascending h'.ascending fun id => ?_⟩
  · rw [h.mem_placed, h'.mem_placed]
  · rw [h.mem_missing, h'.mem_missing]

theorem exists_repairs_checkedOrder (strategy : OrderStrategy) (references : ReferenceCounts) :
    ∃ placed missing, checkedOrder strategy references = placed ++ missing ∧
      Repairs (strategy references) (references.map (·.1)) placed missing := by
  refine ⟨_, _, checkedOrder_eq strategy references, fun _ => mem_taken,
    pairwise_idxOf_eraseDups_filter _ _, ?_,
    ((OrderedSet.ascending _).imp Nat.compare_eq_lt.1).filter _⟩
  intro id
  simp only [List.mem_filter, Bool.not_eq_true', ← Bool.not_eq_true, List.contains_iff_mem,
    mem_taken, ← OrderedSet.mem_def, OrderedSet.mem_ofList]
  exact and_congr_right fun hid => not_congr (and_iff_left hid)

theorem checkedOrder_eq_iff {order : List PredicateId} : checkedOrder strategy references = order ↔
      ∃ placed missing, order = placed ++ missing ∧
        Repairs (strategy references) (references.map (·.1)) placed missing := by
  obtain ⟨placed, missing, he, hrepairs⟩ := exists_repairs_checkedOrder strategy references
  constructor
  · rintro rfl
    exact ⟨placed, missing, he, hrepairs⟩
  · rintro ⟨placed', missing', rfl, hrepairs'⟩
    obtain ⟨rfl, rfl⟩ := hrepairs.unique hrepairs'
    exact he

theorem checkedOrder_perm (strategy : OrderStrategy)
    (h : (references.map (·.1)).Nodup) :
    (checkedOrder strategy references).Perm (references.map (·.1)) :=
  (List.perm_ext_iff_of_nodup (checkedOrder_nodup strategy references) h).2 fun _ =>
    mem_checkedOrder

theorem checkedOrder_eq_self (h : (references.map (·.1)).Pairwise (· < ·))
    (hperm : (strategy references).Perm (references.map (·.1))) :
    checkedOrder strategy references = strategy references := by
  have hnodup : (strategy references).Nodup := hperm.nodup_iff.2 (h.imp Nat.ne_of_lt)
  refine checkedOrder_eq_iff.2 ⟨_, [], (List.append_nil _).symm, ?_, ?_, ?_, .nil⟩
  · intro id
    rw [hperm.mem_iff, and_self]
  · exact pairwise_idxOf_self hnodup
  · intro id
    simp [hperm.mem_iff]

/-! ## The strategies -/

theorem mostReferencedFirst_perm (references : ReferenceCounts) :
    (mostReferencedFirst references).Perm (references.map (·.1)) :=
  (List.mergeSort_perm references referencedMore).map _

theorem referencedMore_iff {i j m n : Nat} :
    referencedMore (i, m) (j, n) = true ↔ n < m ∨ m = n ∧ i ≤ j := by
  simp [referencedMore]

theorem pairwise_mergeSort_referencedMore (h : (references.map (·.1)).Nodup) :
    (references.mergeSort referencedMore).Pairwise fun a b =>
      b.2 < a.2 ∨ a.2 = b.2 ∧ a.1 < b.1 := by
  have hsorted : (references.mergeSort referencedMore).Pairwise fun a b =>
      referencedMore a b = true := by
    refine List.pairwise_mergeSort ?_ ?_ references
    · rintro ⟨i, m⟩ ⟨j, n⟩ ⟨k, q⟩ hij hjk
      rw [referencedMore_iff] at hij hjk ⊢
      omega
    · rintro ⟨i, m⟩ ⟨j, n⟩
      rw [Bool.or_eq_true, referencedMore_iff, referencedMore_iff]
      omega
  have hnodup : ((references.mergeSort referencedMore).map (·.1)).Nodup :=
    (mostReferencedFirst_perm references).nodup_iff.2 h
  have hne : (references.mergeSort referencedMore).Pairwise fun a b => a.1 ≠ b.1 :=
    List.pairwise_map.1 hnodup
  refine (hsorted.and hne).imp ?_
  rintro ⟨i, m⟩ ⟨j, n⟩ ⟨hmore, hij⟩
  exact (referencedMore_iff.1 hmore).imp_right fun hcount =>
    ⟨hcount.1, Nat.lt_of_le_of_ne hcount.2 hij⟩

theorem definitionOrder_eq (h : (references.map (·.1)).Pairwise (· < ·)) :
    definitionOrder references = references.map (·.1) :=
  List.mergeSort_of_pairwise (h.imp fun hlt => decide_eq_true (Nat.le_of_lt hlt))

/-! ## Tables -/

namespace MatchingTables

theorem referenceCounts_ascending (clauses : List Clause) :
    ((referenceCounts clauses).map (·.1)).Pairwise (· < ·) := by
  simp only [referenceCounts, List.map_map, Function.comp_def, List.map_id']
  exact (OrderedSet.ascending _).imp Nat.compare_eq_lt.1

/-- The orders of tables, with no assumption on the strategy. -/
theorem exists_repairs_layout (documents : List (String × Formula)) (strategy : OrderStrategy) :
    let counts := referenceCounts (clausesOf (documents.map (·.2)))
    (counts.map (·.1)).Pairwise (· < ·) ∧
      ∃ placed missing, (layout documents strategy).order = placed ++ missing ∧
        Repairs (strategy counts) (counts.map (·.1)) placed missing := by
  refine ⟨referenceCounts_ascending _, ?_⟩
  rw [layout_order]
  exact exists_repairs_checkedOrder strategy _

end MatchingTables

/-- Whatever is proposed, the checked order lists every referenced predicate once, and it is the one
repair of the proposal. The strategies that can be configured need none: theirs is the order by
references and then by number, or by number alone. -/
theorem checkedOrder_exact (h : (references.map (·.1)).Pairwise (· < ·)) :
    (∀ strategy : OrderStrategy,
      (checkedOrder strategy references).Perm (references.map (·.1)) ∧
      ∀ order, checkedOrder strategy references = order ↔
        ∃ placed missing, order = placed ++ missing ∧
          Repairs (strategy references) (references.map (·.1)) placed missing) ∧
    (checkedOrder mostReferencedFirst references = mostReferencedFirst references ∧
      ∃ sorted : ReferenceCounts, sorted.Perm references ∧
        (sorted.Pairwise fun a b => b.2 < a.2 ∨ a.2 = b.2 ∧ a.1 < b.1) ∧
        mostReferencedFirst references = sorted.map (·.1)) ∧
    checkedOrder definitionOrder references = definitionOrder references ∧
      definitionOrder references = references.map (·.1) := by
  have hnodup : (references.map (·.1)).Nodup := h.imp Nat.ne_of_lt
  have hdefinition := definitionOrder_eq h
  refine ⟨fun strategy => ⟨checkedOrder_perm strategy hnodup, fun order => checkedOrder_eq_iff⟩,
    ⟨checkedOrder_eq_self h (mostReferencedFirst_perm references), ?_⟩, ?_, hdefinition⟩
  · exact ⟨_, List.mergeSort_perm references referencedMore,
      pairwise_mergeSort_referencedMore hnodup, rfl⟩
  · exact checkedOrder_eq_self h (hdefinition ▸ List.Perm.refl _)

/-- Of a proposal with the unknown predicate 9, a repetition and two omissions. -/
theorem checkedOrder_exact_unruly :
    let references : ReferenceCounts := [(0, 1), (1, 3), (2, 1), (3, 1)]
    let unruly : OrderStrategy := fun _ => [9, 3, 1, 3]
    (references.map (·.1)).Pairwise (· < ·) ∧
    checkedOrder unruly references = [3, 1, 0, 2] ∧
    (∃ placed missing, [3, 1, 0, 2] = placed ++ missing ∧
      Repairs [9, 3, 1, 3] [0, 1, 2, 3] placed missing) ∧
    checkedOrder mostReferencedFirst references = mostReferencedFirst references := by
  intro references unruly
  have hascending : (references.map (·.1)).Pairwise (· < ·) := by decide
  have horder : checkedOrder unruly references = [3, 1, 0, 2] := by decide
  obtain ⟨hall, hmost, -⟩ := checkedOrder_exact hascending
  exact ⟨hascending, horder, ((hall unruly).2 _).1 horder, hmost.1⟩

end PolicyDecision
