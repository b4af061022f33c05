import PolicyDecision.Proofs.Formula.Normal
import PolicyDecision.Proofs.Index.Reachable

/-!
# PolicyDecision.Proofs.Index.Correspondence

Formulas over different predicate tables.

The number of a predicate depends on what the table had before, and the order of the clauses depends on
the numbers. Formulas correspond when one is the other under the numbers of the same predicates in the
other table.

* `PredicateTable.IsDistinct`: no two predicates of a table have one signature.
* `PredicateTable.Same`: two numbers that stand for predicates of one signature.
* `Formula.Corresponds`: an equivalence of formulas that the connectives respect.
* `Expression.agrees_compile`: compiling a target over two tables ends in the same way, unless one of them
  runs out of numbers.
-/

namespace PolicyDecision

/-! ## Tables -/

namespace PredicateTable

def IsDistinct (t : PredicateTable) : Prop := (t.predicates.map Expression.signature).Nodup

/-- Two numbers stand for predicates of one signature. -/
def Same (t u : PredicateTable) (i j : PredicateId) : Prop :=
  ∃ p q, t.get? i = some p ∧ u.get? j = some q ∧ p.signature = q.signature

/-- The number that the predicate of a number has in another table. -/
def translate (t u : PredicateTable) (i : PredicateId) : PredicateId :=
  ((t.get? i).bind u.find?).getD i

variable {t u v w : PredicateTable} {e p q : Expression} {i j k : PredicateId}

theorem isDistinct_empty : empty.IsDistinct := List.nodup_nil

theorem IsDistinct.eq_of_signature (h : t.IsDistinct) (hi : t.get? i = some p)
    (hj : t.get? j = some q) (hsig : p.signature = q.signature) : i = j := by
  obtain ⟨hlt, rfl⟩ := List.getElem?_eq_some_iff.1 hi
  obtain ⟨hlt', rfl⟩ := List.getElem?_eq_some_iff.1 hj
  have hpq := List.inj_on_of_nodup_map h (List.getElem_mem hlt) (List.getElem_mem hlt') hsig
  exact (List.Nodup.getElem_inj_iff (List.Nodup.of_map _ h)).1 hpq

theorem find?_eq_none : t.find? e = none ↔ ∀ p ∈ t.predicates, p.signature ≠ e.signature := by
  simp [find?, List.findIdx?_eq_none_iff]

theorem IsDistinct.find? (h : t.IsDistinct) (hi : t.get? i = some p)
    (hsig : p.signature = e.signature) : t.find? e = some i := by
  cases hf : t.find? e with
  | none => exact absurd hsig (find?_eq_none.1 hf p (List.mem_of_getElem? hi))
  | some j =>
    obtain ⟨q, hq, hqe⟩ := find?_spec hf
    exact congrArg some (h.eq_of_signature hq hi (hqe.trans hsig.symm))

theorem IsDistinct.intern (h : t.IsDistinct) (he : t.intern e = .ok (i, u)) : u.IsDistinct := by
  unfold PredicateTable.intern at he
  split at he
  · cases he
    exact h
  · rename_i hnone
    split at he
    · cases he
      simp only [IsDistinct, List.map_append, List.map_singleton]
      refine List.nodup_append'.2 ⟨h, List.nodup_singleton _, fun s hs hs' => ?_⟩
      obtain ⟨p, hp, rfl⟩ := List.mem_map.1 hs
      exact find?_eq_none.1 hnone p hp (List.mem_singleton.1 hs')
    · cases he

theorem IsDistinct.compacted (h : t.IsDistinct) (live : OrderedSet PredicateId) :
    (t.compacted live).IsDistinct := by
  rw [IsDistinct, predicates_compacted, List.map_map]
  refine List.Nodup.map_on (fun i hi j hj he => ?_) (t.survivors_nodup live)
  exact h.eq_of_signature (get?_of_mem_survivors hi) (get?_of_mem_survivors hj) he

/-! ### Numbers of the same predicate -/

theorem Same.refl (h : i < t.size) : t.Same t i i :=
  ⟨_, _, List.getElem?_eq_getElem h, List.getElem?_eq_getElem h, rfl⟩

theorem Same.symm (h : t.Same u i j) : u.Same t j i := by
  obtain ⟨p, q, hp, hq, hsig⟩ := h
  exact ⟨q, p, hq, hp, hsig.symm⟩

theorem Same.trans (h : t.Same u i j) (h' : u.Same v j k) : t.Same v i k := by
  obtain ⟨p, q, hp, hq, hsig⟩ := h
  obtain ⟨q', r, hq', hr, hsig'⟩ := h'
  rw [hq] at hq'
  cases hq'
  exact ⟨p, r, hp, hr, hsig.trans hsig'⟩

theorem Same.lt (h : t.Same u i j) : i < t.size := by
  obtain ⟨p, q, hp, -, -⟩ := h
  exact (List.getElem?_eq_some_iff.1 hp).1

theorem Same.unique (hu : u.IsDistinct) (h : t.Same u i j) (h' : t.Same u i k) : j = k := by
  obtain ⟨p, q, hp, hq, hsig⟩ := h
  obtain ⟨p', q', hp', hq', hsig'⟩ := h'
  rw [hp] at hp'
  cases hp'
  exact hu.eq_of_signature hq hq' (hsig.symm.trans hsig')

theorem Same.injective (ht : t.IsDistinct) (h : t.Same u i k) (h' : t.Same u j k) : i = j :=
  h.symm.unique ht h'.symm

theorem Same.extend (h : t.Same u i j) (ht : t.Extends v) (hu : u.Extends w) : v.Same w i j := by
  obtain ⟨p, q, hp, hq, hsig⟩ := h
  exact ⟨p, q, ht.get? hp, hu.get? hq, hsig⟩

theorem Same.translate_eq (hu : u.IsDistinct) (h : t.Same u i j) : t.translate u i = j := by
  obtain ⟨p, q, hp, hq, hsig⟩ := h
  rw [translate, hp, Option.bind_some, hu.find? hq hsig.symm]
  rfl

theorem same_intern (ht : t.intern e = .ok (i, v)) (hu : u.intern e = .ok (j, w)) :
    v.Same w i j := by
  obtain ⟨-, ⟨p, hp, hsig⟩, -⟩ := intern_spec ht
  obtain ⟨-, ⟨q, hq, hsig'⟩, -⟩ := intern_spec hu
  exact ⟨p, q, hp, hq, hsig.trans hsig'.symm⟩

theorem same_compacted {live : OrderedSet PredicateId} (hlt : i < t.size) (hi : i ∈ live) :
    t.Same (t.compacted live) i (t.renumber live i) := by
  have hget : t.get? i = some t.predicates[i] := List.getElem?_eq_getElem hlt
  exact ⟨_, _, hget, (get?_compacted hlt hi).trans hget, rfl⟩

end PredicateTable

/-! ## Formulas -/

theorem Literal.rename_id (l : Literal) : l.rename (fun id => id) = l := by
  cases l <;> rfl

theorem Clause.rename_id (c : Clause) : c.rename (fun id => id) = c := by
  refine Clause.ext (congrArg OrderedSet.items (OrderedSet.ext fun l => ?_))
  simp [Clause.rename, OrderedSet.mem_image, Literal.rename_id]

namespace Formula

theorem rename_id (f : Formula) : f.rename (fun id => id) = f := by
  refine clauses_injective (OrderedSet.ext fun c => ?_)
  simp [rename, OrderedSet.mem_image, Clause.rename_id]

/-- The second formula is the first one with the numbers that its predicates have in the second
table. -/
def Corresponds (t u : PredicateTable) (f g : Formula) : Prop :=
  ∃ r, (∀ id ∈ f.predicates, t.Same u id (r id)) ∧ g = f.rename r

namespace Corresponds

variable {t u v w : PredicateTable} {f g f' g' : Formula} {i j : PredicateId}

theorem refl (h : ∀ id ∈ f.predicates, id < t.size) : Corresponds t t f f :=
  ⟨fun id => id, fun id hid => .refl (h id hid), f.rename_id.symm⟩

theorem trans (h : Corresponds t u f g) (h' : Corresponds u v g f') : Corresponds t v f f' := by
  obtain ⟨r, hr, rfl⟩ := h
  obtain ⟨s, hs, rfl⟩ := h'
  refine ⟨fun id => s (r id), fun id hid => ?_, f.rename_rename⟩
  exact (hr id hid).trans (hs _ (mem_rename_predicates.2 ⟨id, hid, rfl⟩))

/-- Where the second table is distinct there is one renaming for all formulas. -/
theorem eq_translate (hu : u.IsDistinct) (h : Corresponds t u f g) :
    (∀ id ∈ f.predicates, t.Same u id (t.translate u id)) ∧ g = f.rename (t.translate u) := by
  obtain ⟨r, hr, rfl⟩ := h
  have heq (id : PredicateId) (hid : id ∈ f.predicates) : t.translate u id = r id :=
    (hr id hid).translate_eq hu
  refine ⟨fun id hid => ?_, rename_congr fun id hid => (heq id hid).symm⟩
  rw [heq id hid]
  exact hr id hid

theorem symm (ht : t.IsDistinct) (h : Corresponds t u f g) : Corresponds u t g f := by
  obtain ⟨r, hr, rfl⟩ := h
  have hback (id : PredicateId) (hid : id ∈ f.predicates) : u.translate t (r id) = id :=
    (hr id hid).symm.translate_eq ht
  refine ⟨u.translate t, fun j hj => ?_, ?_⟩
  · obtain ⟨i, hi, rfl⟩ := mem_rename_predicates.1 hj
    rw [hback i hi]
    exact (hr i hi).symm
  · rw [rename_rename, rename_congr hback, rename_id]

theorem extend (h : Corresponds t u f g) (ht : t.Extends v) (hu : u.Extends w) :
    Corresponds v w f g := by
  obtain ⟨r, hr, rfl⟩ := h
  exact ⟨r, fun id hid => (hr id hid).extend ht hu, rfl⟩

theorem constant (b : Bool) : Corresponds t u (constant b) (constant b) :=
  ⟨fun id => id, fun _ hid => absurd hid (not_mem_predicates_constant b),
    (rename_constant _ b).symm⟩

theorem ofPredicate (h : t.Same u i j) :
    Corresponds t u (ofLiteral (.ofPredicate i)) (ofLiteral (.ofPredicate j)) := by
  have hone : ∀ k ∈ [i], ∀ l ∈ [i], j = j → k = l := by simp
  obtain ⟨r, hr, hij⟩ := exists_injective_renaming hone
  obtain rfl : j = r i := hij i (.head _)
  refine ⟨r, fun id hid => ?_, (rename_ofLiteral hr (.ofPredicate i)).symm⟩
  rwa [mem_predicates_of_literal hid]

/-- Two formulas are renamed together, by a renaming that keeps all predicates apart. -/
theorem common (ht : t.IsDistinct) (hu : u.IsDistinct) (hf : Corresponds t u f f')
    (hg : Corresponds t u g g') :
    ∃ r, Function.Injective r ∧
      (∀ id, id ∈ f.predicates ∨ id ∈ g.predicates → t.Same u id (r id)) ∧
      f' = f.rename r ∧ g' = g.rename r := by
  obtain ⟨hsf, hf⟩ := hf.eq_translate hu
  obtain ⟨hsg, hg⟩ := hg.eq_translate hu
  have hsame (id : PredicateId) (hid : id ∈ f.predicates.items ++ g.predicates.items) :
      t.Same u id (t.translate u id) :=
    (List.mem_append.1 hid).elim (hsf id) (hsg id)
  have hinj : ∀ i ∈ f.predicates.items ++ g.predicates.items,
      ∀ j ∈ f.predicates.items ++ g.predicates.items,
      t.translate u i = t.translate u j → i = j := fun i hi j hj he =>
    (hsame i hi).injective ht (he ▸ hsame j hj)
  obtain ⟨r, hr, heq⟩ := exists_injective_renaming hinj
  refine ⟨r, hr, fun id hid => ?_, ?_, ?_⟩
  · rw [← heq id (List.mem_append.2 hid)]
    exact hsame id (List.mem_append.2 hid)
  · rw [hf]
    exact rename_congr fun id hid => heq id (List.mem_append_left _ hid)
  · rw [hg]
    exact rename_congr fun id hid => heq id (List.mem_append_right _ hid)

theorem size_eq (ht : t.IsDistinct) (hu : u.IsDistinct) (h : Corresponds t u f g) :
    g.size = f.size := by
  obtain ⟨r, hr, -, rfl, -⟩ := h.common ht hu h
  exact size_rename hr f

theorem isNormal (ht : t.IsDistinct) (hu : u.IsDistinct) (h : Corresponds t u f g)
    (hf : f.IsNormal) : g.IsNormal := by
  obtain ⟨r, hr, -, rfl, -⟩ := h.common ht hu h
  exact hf.rename hr

theorem negate (ht : t.IsDistinct) (hu : u.IsDistinct) (h : Corresponds t u f g) :
    Corresponds t u f.negate g.negate := by
  obtain ⟨r, hr, hsame, rfl, -⟩ := h.common ht hu h
  exact ⟨r, fun id hid => hsame id (.inl (mem_predicates_of_negate hid)),
    (rename_negate hr f).symm⟩

theorem and (ht : t.IsDistinct) (hu : u.IsDistinct) (hf : Corresponds t u f f')
    (hg : Corresponds t u g g') : Corresponds t u (f.and g) (f'.and g') := by
  obtain ⟨r, hr, hsame, rfl, rfl⟩ := hf.common ht hu hg
  exact ⟨r, fun id hid => hsame id (mem_predicates_of_and hid), (rename_and hr f g).symm⟩

theorem or (ht : t.IsDistinct) (hu : u.IsDistinct) (hf : Corresponds t u f f')
    (hg : Corresponds t u g g') (hnf : f.IsNormal) (hng : g.IsNormal) :
    Corresponds t u (f.or g) (f'.or g') := by
  obtain ⟨r, hr, hsame, rfl, rfl⟩ := hf.common ht hu hg
  exact ⟨r, fun id hid => hsame id (mem_predicates_of_or hid), (rename_or hr hnf hng).symm⟩

/-- Corresponding formulas are satisfied alike where the same predicates have the same outcomes. -/
theorem isSatisfied_eq {o o' : Outcomes} (h : Corresponds t u f g)
    (ho : ∀ i j, t.Same u i j → o i = o' j) : g.isSatisfied o' = f.isSatisfied o := by
  obtain ⟨r, hr, rfl⟩ := h
  rw [isSatisfied_rename]
  exact isSatisfied_congr fun id hid => (ho id (r id) (hr id hid)).symm

end Corresponds

end Formula

/-! ## Compiling over two tables -/

/-- The outcomes of two compilations with the tables that they leave: the same refusal or corresponding
formulas, unless one of them ran out of numbers. -/
inductive Formula.Agree (t u : PredicateTable) : Except Error Formula → Except Error Formula → Prop
  | exhausted_left {r} : Agree t u (.error .tooManyPredicates) r
  | exhausted_right {r} : Agree t u r (.error .tooManyPredicates)
  | refused (e : Error) : Agree t u (.error e) (.error e)
  | formulas {f g} (normal : f.IsNormal) (corresponds : Corresponds t u f g) :
    Agree t u (.ok f) (.ok g)

/-- Two compilations of one expression, over tables without repetitions. -/
structure Compilation.Agrees (c d : Compilation) : Prop where
  left : c.2.IsDistinct
  right : d.2.IsDistinct
  agree : Formula.Agree c.2 d.2 c.1 d.1

namespace Formula

/-- A connective that makes agreeing formulas of corresponding ones. -/
def Respects (join : Formula → Formula → Except Error Formula) : Prop :=
  ∀ {t u : PredicateTable} {f g f' g' : Formula}, t.IsDistinct → u.IsDistinct →
    f.IsNormal → g.IsNormal → Corresponds t u f f' → Corresponds t u g g' →
    Agree t u (join f g) (join f' g')

variable {t u : PredicateTable} {f g f' g' : Formula}

theorem Corresponds.bounded (ht : t.IsDistinct) (hu : u.IsDistinct) (hf : f.IsNormal)
    (h : Corresponds t u f g) (limit : Nat) : Agree t u (f.bounded limit) (g.bounded limit) := by
  rw [Formula.bounded, Formula.bounded, h.size_eq ht hu]
  split
  · exact .refused _
  · exact .formulas hf h

theorem respects_conjunction (limit : Nat) : Respects (conjunction limit) := by
  intro t u f g f' g' ht hu hf hg h h'
  rw [conjunction, conjunction, h.size_eq ht hu, h'.size_eq ht hu]
  split
  · exact .refused _
  · exact (h.and ht hu h').bounded ht hu (isNormal_and f g) limit

theorem respects_disjunction (limit : Nat) : Respects (disjunction limit) := by
  intro t u f g f' g' ht hu hf hg h h'
  exact (h.or ht hu h' hf hg).bounded ht hu (hf.or hg) limit

end Formula

namespace Compilation.Agrees

variable {c d : Compilation} {t u : PredicateTable}

theorem constant (ht : t.IsDistinct) (hu : u.IsDistinct) (b : Bool) :
    Agrees (.ok (.constant b), t) (.ok (.constant b), u) :=
  ⟨ht, hu, .formulas (Formula.isNormal_constant b) (.constant b)⟩

theorem predicate (ht : t.IsDistinct) (hu : u.IsDistinct) (imports : Imports) (e : Expression) :
    Agrees (compilePredicate imports e t) (compilePredicate imports e u) := by
  have hfull {t : PredicateTable} {err : Error}
      (h : t.intern (e.resolveImports imports) = .error err) : err = .tooManyPredicates := by
    unfold PredicateTable.intern at h
    split at h
    · cases h
    · split at h
      · cases h
      · exact (Except.error.inj h).symm
  unfold compilePredicate
  cases hi : t.intern (e.resolveImports imports) with
  | error err =>
    rw [hfull hi]
    cases hj : u.intern (e.resolveImports imports) with
    | error err' => exact ⟨ht, hu, .exhausted_left⟩
    | ok new => exact ⟨ht, hu.intern hj, .exhausted_left⟩
  | ok new =>
    cases hj : u.intern (e.resolveImports imports) with
    | error err =>
      rw [hfull hj]
      exact ⟨ht.intern hi, hu, .exhausted_right⟩
    | ok new' =>
      exact ⟨ht.intern hi, hu.intern hj, .formulas (Formula.isNormal_ofLiteral _)
        (.ofPredicate (PredicateTable.same_intern hi hj))⟩

theorem negate (h : Agrees c d) (limit : Nat) :
    Agrees (c.map fun f => f.negate.bounded limit) (d.map fun f => f.negate.bounded limit) := by
  obtain ⟨r, t⟩ := c
  obtain ⟨r', u⟩ := d
  obtain ⟨ht, hu, hagree⟩ := h
  refine ⟨ht, hu, ?_⟩
  cases hagree with
  | exhausted_left => exact .exhausted_left
  | exhausted_right => exact .exhausted_right
  | refused e => exact .refused e
  | formulas hf h => exact (h.negate ht hu).bounded ht hu (Formula.isNormal_negate _) limit

/-- Each operand is compiled over what the one before left. -/
theorem andThen {second : PredicateTable → Compilation}
    {join : Formula → Formula → Except Error Formula} (h : Agrees c d)
    (hsecond : ∀ {t u : PredicateTable}, t.IsDistinct → u.IsDistinct → Agrees (second t) (second u))
    (hext : ∀ t : PredicateTable, t.Extends (second t).2) (hjoin : Formula.Respects join) :
    Agrees (c.andThen second join) (d.andThen second join) := by
  have hdistinct {c : Compilation} (h : c.2.IsDistinct) :
      (c.andThen second join).2.IsDistinct := by
    obtain ⟨r, t⟩ := c
    cases r with
    | error e => exact h
    | ok f =>
      rw [andThen_ok]
      exact (hsecond h h).left
  refine ⟨hdistinct h.left, hdistinct h.right, ?_⟩
  obtain ⟨r, t⟩ := c
  obtain ⟨r', u⟩ := d
  obtain ⟨ht, hu, hagree⟩ := h
  cases hagree with
  | exhausted_left => exact .exhausted_left
  | exhausted_right => exact .exhausted_right
  | refused e => exact .refused e
  | @formulas f g hf h =>
    rw [andThen_ok, andThen_ok]
    have hs := hsecond ht hu
    have hcorr := h.extend (hext t) (hext u)
    revert hs hcorr
    rcases second t with ⟨s, v⟩
    rcases second u with ⟨s', w⟩
    rintro ⟨hv, hw, hagree⟩ hcorr
    cases hagree with
    | exhausted_left => exact .exhausted_left
    | exhausted_right => exact .exhausted_right
    | refused e => exact .refused e
    | formulas hf' h' => exact hjoin hv hw hf hf' hcorr h'

end Compilation.Agrees

/-- Compiling an expression over two tables. The induction is that of the leaves. -/
theorem Expression.agrees_compile (imports : Imports) (limit : Nat) (e : Expression)
    {t u : PredicateTable} (ht : t.IsDistinct) (hu : u.IsDistinct) :
    (e.compile imports limit t).Agrees (e.compile imports limit u) := by
  have hext (e : Expression) (t : PredicateTable) : t.Extends (e.compile imports limit t).2 :=
    (isCompiled_compile imports limit e t).extended
  induction e using Expression.leaves.induct generalizing t u with
  | case1 b =>
    rw [compile, compile]
    exact .constant ht hu b
  | case2 inner ih =>
    rw [compile, compile]
    exact ih ht hu
  | case3 operand ih =>
    rw [compile, compile]
    exact (ih ht hu).negate limit
  | case4 left right ihl ihr | case5 left right ihl ihr =>
    rw [compile, compile]
    exact (ihl ht hu).andThen ihr (hext right) (Formula.respects_conjunction limit)
  | case6 left right ihl ihr | case7 left right ihl ihr =>
    rw [compile, compile]
    exact (ihl ht hu).andThen ihr (hext right) (Formula.respects_disjunction limit)
  | case8 op left right hand heagerAnd hor heagerOr =>
    rw [compile, compile]
    · exact .predicate ht hu imports _
    all_goals assumption
  | case9 e hbool hgroup hnot hbinary =>
    rw [compile, compile]
    · exact .predicate ht hu imports e
    all_goals assumption

end PolicyDecision
