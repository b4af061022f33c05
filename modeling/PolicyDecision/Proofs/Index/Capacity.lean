import PolicyDecision.Proofs.Index.History

/-!
# PolicyDecision.Proofs.Index.Capacity

When the numbers for predicates last.

A table has no more predicates than the published documents have leaves, so while these are not more than
there are numbers, no document is refused for want of one.

* `PredicateTable.FitsIn`: different predicates out of a list.
* `PredicateTable.FitsIn.exists_intern`: a list within the capacity leaves a number for each of its
  members.
* `CanonicalIndex.not_isExhausted_of_applyEach`: no document of an index is refused for want of numbers.
-/

namespace PolicyDecision

namespace PredicateTable

/-- The predicates of a table are different ones out of a list. -/
structure FitsIn (known : List Expression) (t : PredicateTable) : Prop where
  distinct : t.IsDistinct
  listed : ∀ p ∈ t.predicates, p ∈ known

variable {known : List Expression} {t : PredicateTable} {e : Expression}

theorem FitsIn.exists_intern (h : t.FitsIn known) (hsize : known.length ≤ capacity)
    (he : e ∈ known) : ∃ new, t.intern e = .ok new := by
  unfold intern
  split
  · exact ⟨_, rfl⟩
  · rename_i hnone
    have hnew : (e :: t.predicates).Nodup :=
      List.nodup_cons.2 ⟨fun hmem => find?_eq_none.1 hnone e hmem rfl, List.Nodup.of_map _ h.distinct⟩
    have hsub : e :: t.predicates ⊆ known :=
      List.cons_subset.2 ⟨he, fun p hp => h.listed p hp⟩
    have hlength := (List.subperm_of_subset hnew hsub).length_le
    have hlt : t.size < capacity := Nat.lt_of_lt_of_le hlength hsize
    exact ⟨_, if_pos hlt⟩

theorem FitsIn.compile (h : t.FitsIn known) (imports : Imports) (limit : Nat)
    (hleaves : ∀ l ∈ e.leaves imports, l ∈ known) :
    (e.compile imports limit t).2.FitsIn known where
  distinct := (e.agrees_compile imports limit h.distinct h.distinct).left
  listed p hp := ((Expression.isCompiled_compile imports limit e t).added p hp).elim
    (h.listed p) (hleaves p)

end PredicateTable

/-! ## Compiling -/

namespace Formula

variable {limit : Nat} {f g : Formula}

theorem bounded_ne_tooManyPredicates : f.bounded limit ≠ .error .tooManyPredicates := by
  unfold bounded
  split <;> simp

theorem conjunction_ne_tooManyPredicates :
    conjunction limit f g ≠ .error .tooManyPredicates := by
  unfold conjunction
  split
  · simp
  · exact bounded_ne_tooManyPredicates

end Formula

variable {known : List Expression} {t : PredicateTable}

theorem Compilation.andThen_ne {c : Compilation} {second : PredicateTable → Compilation}
    {join : Formula → Formula → Except Error Formula} {e : Error} (hc : c.1 ≠ .error e)
    (hsecond : (second c.2).1 ≠ .error e) (hjoin : ∀ f g, join f g ≠ .error e) :
    (c.andThen second join).1 ≠ .error e := by
  obtain ⟨r, u⟩ := c
  cases r with
  | error err => exact hc
  | ok f =>
    rw [Compilation.andThen_ok]
    revert hsecond
    rcases second u with ⟨r, v⟩
    intro hsecond
    cases r with
    | error err => exact hsecond
    | ok g => exact hjoin f g

/-- A target whose predicates are listed gets its numbers. -/
theorem Expression.compile_ne_tooManyPredicates (hsize : known.length ≤ PredicateTable.capacity)
    (imports : Imports) (limit : Nat) (e : Expression) (h : t.FitsIn known)
    (hleaves : ∀ l ∈ e.leaves imports, l ∈ known) :
    (e.compile imports limit t).1 ≠ .error .tooManyPredicates := by
  have hpredicate {e : Expression} {t : PredicateTable} (h : t.FitsIn known)
      (he : e.resolveImports imports ∈ known) :
      (compilePredicate imports e t).1 ≠ .error .tooManyPredicates := by
    obtain ⟨new, hnew⟩ := h.exists_intern hsize he
    simp [compilePredicate, hnew]
  induction e using Expression.leaves.induct generalizing t with
  | case1 b => simp [compile]
  | case2 inner ih =>
    rw [compile]
    exact ih h hleaves
  | case3 operand ih =>
    rw [compile]
    have hoperand := ih h hleaves
    revert hoperand
    rcases operand.compile imports limit t with ⟨r, u⟩
    intro hoperand
    cases r with
    | error err => exact hoperand
    | ok f => exact Formula.bounded_ne_tooManyPredicates
  | case4 left right ihl ihr | case5 left right ihl ihr =>
    rw [leaves, List.forall_mem_append] at hleaves
    rw [compile]
    exact Compilation.andThen_ne (ihl h hleaves.1) (ihr (h.compile imports limit hleaves.1) hleaves.2)
      fun _ _ => Formula.conjunction_ne_tooManyPredicates
  | case6 left right ihl ihr | case7 left right ihl ihr =>
    rw [leaves, List.forall_mem_append] at hleaves
    rw [compile]
    exact Compilation.andThen_ne (ihl h hleaves.1) (ihr (h.compile imports limit hleaves.1) hleaves.2)
      fun _ _ => Formula.bounded_ne_tooManyPredicates
  | case8 op left right hand heagerAnd hor heagerOr =>
    rw [leaves, List.forall_mem_singleton] at hleaves
    · rw [compile]
      · exact hpredicate h hleaves
      all_goals assumption
    all_goals assumption
  | case9 e hbool hgroup hnot hbinary =>
    rw [leaves, List.forall_mem_singleton] at hleaves
    · rw [compile]
      · exact hpredicate h hleaves
      all_goals assumption
    all_goals assumption

/-! ## Documents -/

/-- A document is not refused for want of numbers. -/
theorem CanonicalIndex.compileError_compile_ne (hsize : known.length ≤ PredicateTable.capacity)
    (maxClauses : Nat) (d : Document) (h : t.FitsIn known) (hleaves : ∀ l ∈ d.leaves, l ∈ known) :
    (compile maxClauses d t).1.compileError ≠ some .tooManyPredicates := by
  have htarget : (compileTarget d.imports maxClauses d.target t).1 ≠
      .error .tooManyPredicates := by
    unfold compileTarget
    cases ht : d.target with
    | none => simp
    | some e =>
      rw [Document.leaves, ht] at hleaves
      dsimp only
      split
      · simp
      · exact e.compile_ne_tooManyPredicates hsize d.imports maxClauses h hleaves
  unfold compile
  revert htarget
  rcases compileTarget d.imports maxClauses d.target t with ⟨r, u⟩
  intro htarget
  cases r with
  | ok f => simp
  | error e => exact fun he => htarget (congrArg Except.error (Option.some.inj he))

namespace Publications

/-- Nothing was refused for want of numbers, and there are enough for what is listed. -/
structure IsRoomy (known : List Expression) (p : Publications PredicateTable IndexedDocument) :
    Prop where
  fits : p.state.FitsIn known
  accepted : ∀ b ∈ p.documents.entries, b.2.compileError ≠ some .tooManyPredicates

variable {maxClauses : Nat} {p q : Publications PredicateTable IndexedDocument} {u : Update}
  {updates : List Update}

theorem IsRoomy.apply (h : p.IsRoomy known) (hsize : known.length ≤ PredicateTable.capacity)
    (hu : ∀ d, u = .publish d → ∀ l ∈ d.leaves, l ∈ known)
    (he : p.apply (CanonicalIndex.compile maxClauses) u = .ok q) : q.IsRoomy known := by
  rcases apply_cases he with ⟨d, rfl, -, rfl⟩ | ⟨name, rfl, rfl⟩ | ⟨-, hdocs, hstate⟩
  · have hleaves := hu d rfl
    obtain ⟨-, -, -, hadded⟩ := CanonicalIndex.compile_spec maxClauses d p.state
    refine ⟨⟨(CanonicalIndex.isDistinct_compile maxClauses d h.fits.distinct).1,
      fun e he => (hadded e he).elim (h.fits.listed e) (hleaves e)⟩, fun b hb => ?_⟩
    rcases SortedTable.mem_entries_insert hb with rfl | hb
    · exact CanonicalIndex.compileError_compile_ne hsize maxClauses d h.fits hleaves
    · exact h.accepted b hb
  · exact ⟨h.fits, fun b hb => h.accepted b (SortedTable.mem_entries_erase.1 hb).1⟩
  · obtain ⟨documents, state, consistent⟩ := q
    cases hdocs
    cases hstate
    exact ⟨h.fits, h.accepted⟩

theorem IsRoomy.compact (h : p.IsRoomy known) : (CanonicalIndex.compact p).IsRoomy known := by
  unfold CanonicalIndex.compact
  dsimp only
  split
  · refine ⟨⟨h.fits.distinct.compacted _,
      fun e he => h.fits.listed e (PredicateTable.mem_compacted he)⟩, fun b hb => ?_⟩
    obtain ⟨a, ha, rfl⟩ := SortedTable.mem_entries_map.1 hb
    exact h.accepted a ha
  · exact h

end Publications

/-! ## Indexes -/

namespace CanonicalIndex

/-- Some document was refused for want of numbers. -/
def IsExhausted (index : CanonicalIndex) : Prop :=
  ∃ x ∈ index.documents.values, x.compileError = some .tooManyPredicates

variable {maxClauses : Nat} {strategy : OrderStrategy} {batches : List UpdateBatch}
  {index next : CanonicalIndex} {batch : UpdateBatch}

theorem isRoomy_apply (hsize : known.length ≤ PredicateTable.capacity)
    (hleaves : ∀ d ∈ Update.published batch.updates, ∀ l ∈ d.leaves, l ∈ known)
    (h : index.publications.IsRoomy known) (he : index.apply batch = .ok next) :
    next.publications.IsRoomy known := by
  obtain ⟨p, hp, hpublications, -⟩ := apply_spec he
  rw [hpublications]
  have hstep (_ : List Update) (p : Publications PredicateTable IndexedDocument) (u : Update)
      (q : Publications PredicateTable IndexedDocument) (hu : u ∈ batch.updates)
      (h : p.IsRoomy known) (he : p.apply (compile index.maxClauses) u = .ok q) :
      q.IsRoomy known :=
    h.apply hsize (fun d hd => hleaves d (Update.mem_published.2 (hd ▸ hu))) he
  have hroomy : p.IsRoomy known := Publications.applyAll_induction []
    (motive := fun _ p => p.IsRoomy known) hstep h hp
  exact hroomy.compact

/-- While the published documents have not more leaves than there are numbers, none is refused for want
of one. -/
theorem not_isExhausted_of_applyEach (hsize : known.length ≤ PredicateTable.capacity)
    (hleaves : ∀ d ∈ published batches, ∀ l ∈ d.leaves, l ∈ known)
    (h : (empty maxClauses strategy).applyEach batches = .ok index) : ¬ index.IsExhausted := by
  have hstep (_ : List UpdateBatch) (index : CanonicalIndex) (batch : UpdateBatch)
      (next : CanonicalIndex) (hmem : batch ∈ batches) (h : index.publications.IsRoomy known)
      (he : index.apply batch = .ok next) : next.publications.IsRoomy known :=
    isRoomy_apply hsize (fun d hd => hleaves d (List.mem_flatMap.2 ⟨batch, hmem, hd⟩)) h he
  have hempty : (empty maxClauses strategy).publications.IsRoomy known :=
    ⟨⟨PredicateTable.isDistinct_empty, fun _ h => absurd h List.not_mem_nil⟩,
      fun _ h => absurd h List.not_mem_nil⟩
  have hroomy : index.publications.IsRoomy known := applyEach_induction []
    (motive := fun _ index => index.publications.IsRoomy known) hstep hempty h
  rintro ⟨x, hx, he⟩
  obtain ⟨b, hb, rfl⟩ := List.mem_map.1 hx
  exact hroomy.accepted b hb he

end CanonicalIndex
end PolicyDecision
