import PolicyDecision.Index.Compilation
import PolicyDecision.Proofs.Formula.Reduced

/-!
# PolicyDecision.Proofs.Index.Compilation

What the formula of a target says about the target.

The leaves of a target are the predicates that its compilation looks up. Truth values of the leaves,
which may be unknown, make a truth value of the target (`Expression.verdict`).

* `PredicateTable.intern_spec`: the number of an expression leads to an expression of its signature.
* `Expression.isCompiled_compile`: compiling only adds leaves to the table, every predicate of the
  formula stands for a leaf, and the formula confirms the truth value of the target.
-/

namespace PolicyDecision

/-! ## Leaves -/

/-- The predicates of a target, under their resolved names. -/
def Expression.leaves (imports : Imports) : Expression → List Expression
  | .basic (.value (.bool _)) [] none => []
  | .basic (.group inner) [] none => inner.leaves imports
  | .unary .not operand => operand.leaves imports
  | .binary op left right =>
    match op with
    | .and | .eagerAnd | .or | .eagerOr => left.leaves imports ++ right.leaves imports
    | op => [Expression.resolveImports imports (.binary op left right)]
  | e => [e.resolveImports imports]

/-- `&&` or `||` with lazily evaluated operands, given the deciding boolean. -/
def lazyVerdict (deciding : Bool) (left right : Option Bool) : Option Bool :=
  left.bind fun a => if a = deciding then some deciding else right

/-- The truth value of a target whose leaves have truth values. -/
def Expression.verdict (imports : Imports) (truth : Expression → Option Bool) :
    Expression → Option Bool
  | .basic (.value (.bool b)) [] none => some b
  | .basic (.group inner) [] none => inner.verdict imports truth
  | .unary .not operand => (operand.verdict imports truth).map (!·)
  | .binary op left right =>
    match op with
    | .and => lazyVerdict false (left.verdict imports truth) (right.verdict imports truth)
    | .or => lazyVerdict true (left.verdict imports truth) (right.verdict imports truth)
    | .eagerAnd => (left.verdict imports truth).bind fun a =>
        (right.verdict imports truth).map (a && ·)
    | .eagerOr => (left.verdict imports truth).bind fun a =>
        (right.verdict imports truth).map (a || ·)
    | op => truth (Expression.resolveImports imports (.binary op left right))
  | e => truth (e.resolveImports imports)

/-! ## The table -/

namespace PredicateTable

/-- The second table has more predicates at its end. -/
def Extends (t u : PredicateTable) : Prop := t.predicates <+: u.predicates

/-- The outcomes of predicates whose signatures have truth values. -/
def signed (t : PredicateTable) (truth : String → Option Bool) : Outcomes :=
  fun id => (t.get? id).bind fun p => truth p.signature

variable {t u v : PredicateTable} {e p : Expression} {id : PredicateId}

theorem Extends.refl (t : PredicateTable) : t.Extends t := List.prefix_rfl

theorem Extends.trans (h : t.Extends u) (h' : u.Extends v) : t.Extends v := List.IsPrefix.trans h h'

theorem Extends.get? (h : t.Extends u) (hid : t.get? id = some p) : u.get? id = some p := by
  obtain ⟨hlt, he⟩ := List.getElem?_eq_some_iff.1 hid
  rw [← he]
  exact List.prefix_iff_getElem?.1 h id hlt

theorem Extends.signed (h : t.Extends u) (hid : t.get? id = some p)
    (truth : String → Option Bool) : t.signed truth id = u.signed truth id := by
  rw [PredicateTable.signed, PredicateTable.signed, hid, h.get? hid]

theorem find?_spec (h : t.find? e = some id) :
    ∃ p, t.get? id = some p ∧ p.signature = e.signature := by
  obtain ⟨hlt, hp, -⟩ := List.findIdx?_eq_some_iff_getElem.1 h
  exact ⟨_, List.getElem?_eq_getElem hlt, by simpa using hp⟩

/-- The number of an expression leads to an expression of its signature. -/
theorem intern_spec (h : t.intern e = .ok (id, u)) :
    t.Extends u ∧ (∃ p, u.get? id = some p ∧ p.signature = e.signature) ∧
      ∀ p ∈ u.predicates, p ∈ t.predicates ∨ p = e := by
  unfold intern at h
  split at h
  · rename_i i hi
    cases h
    exact ⟨.refl t, find?_spec hi, fun p hp => .inl hp⟩
  · split at h
    · cases h
      refine ⟨List.prefix_append _ _, ⟨e, ?_, rfl⟩, fun p hp => ?_⟩
      · simp [get?, size]
      · simpa using hp
    · cases h

end PredicateTable

/-! ## Joining formulas -/

namespace Formula

/-- A connective of formulas that stands for a connective of truth values. -/
structure Joins (join : Formula → Formula → Except Error Formula)
    (connective : Option Bool → Option Bool → Option Bool) : Prop where
  reduced : ∀ f g h, join f g = .ok h → f.IsReduced → g.IsReduced → h.IsReduced
  predicates : ∀ f g h, join f g = .ok h → ∀ id ∈ h.predicates,
    id ∈ f.predicates ∨ id ∈ g.predicates
  decides : ∀ f g h, join f g = .ok h → ∀ o x y, f.Decides o x → g.Decides o y →
    h.Decides o (connective x y)

variable {limit : Nat} {f g h : Formula}

theorem bounded_eq_ok (he : f.bounded limit = .ok h) : h = f := by
  unfold bounded at he
  split at he
  · cases he
  · exact (Except.ok.inj he).symm

theorem conjunction_eq_ok (he : conjunction limit f g = .ok h) : h = f.and g := by
  unfold conjunction at he
  split at he
  · cases he
  · exact bounded_eq_ok he

theorem disjunction_eq_ok (he : disjunction limit f g = .ok h) : h = f.or g := bounded_eq_ok he

theorem joins_conjunction (limit : Nat) {connective : Option Bool → Option Bool → Option Bool}
    (ht : ∀ x y, connective x y = some true → x = some true ∧ y = some true)
    (hf : ∀ x y, connective x y = some false → x = some false ∨ y = some false) :
    Joins (conjunction limit) connective where
  reduced f g _ he _ _ := conjunction_eq_ok he ▸ isReduced_and f g
  predicates _ _ _ he _ hid := mem_predicates_of_and (conjunction_eq_ok he ▸ hid)
  decides _ _ _ he _ x y hx hy := conjunction_eq_ok he ▸ hx.and hy (ht x y) (hf x y)

theorem joins_disjunction (limit : Nat) {connective : Option Bool → Option Bool → Option Bool}
    (ht : ∀ x y, connective x y = some true → x = some true ∨ y = some true)
    (hf : ∀ x y, connective x y = some false → x = some false ∧ y = some false) :
    Joins (disjunction limit) connective where
  reduced _ _ _ he hf hg := disjunction_eq_ok he ▸ hf.or hg
  predicates _ _ _ he _ hid := mem_predicates_of_or (disjunction_eq_ok he ▸ hid)
  decides _ _ _ he _ x y hx hy := disjunction_eq_ok he ▸ hx.or hy (ht x y) (hf x y)

theorem joins_lazyAnd (limit : Nat) : Joins (conjunction limit) (lazyVerdict false) :=
  joins_conjunction limit
    (fun x y h => by
      obtain _ | _ | _ := x <;> simp_all [lazyVerdict])
    fun x y h => by
      obtain _ | _ | _ := x <;> simp_all [lazyVerdict]

theorem joins_eagerAnd (limit : Nat) :
    Joins (conjunction limit) fun x y => x.bind fun a => y.map (a && ·) :=
  joins_conjunction limit
    (fun x y h => by
      obtain _ | _ | _ := x <;> obtain _ | _ | _ := y <;> simp_all)
    fun x y h => by
      obtain _ | _ | _ := x <;> obtain _ | _ | _ := y <;> simp_all

theorem joins_lazyOr (limit : Nat) : Joins (disjunction limit) (lazyVerdict true) :=
  joins_disjunction limit
    (fun x y h => by
      obtain _ | _ | _ := x <;> simp_all [lazyVerdict])
    fun x y h => by
      obtain _ | _ | _ := x <;> simp_all [lazyVerdict]

theorem joins_eagerOr (limit : Nat) :
    Joins (disjunction limit) fun x y => x.bind fun a => y.map (a || ·) :=
  joins_disjunction limit
    (fun x y h => by
      obtain _ | _ | _ := x <;> obtain _ | _ | _ := y <;> simp_all)
    fun x y h => by
      obtain _ | _ | _ := x <;> obtain _ | _ | _ := y <;> simp_all

end Formula

/-! ## Compiling -/

/-- Joining with the outcome of the second part. -/
theorem Compilation.andThen_ok (f : Formula) (t : PredicateTable) (second : PredicateTable → Compilation)
    (join : Formula → Formula → Except Error Formula) :
    Compilation.andThen (.ok f, t) second join = ((second t).1.bind (join f), (second t).2) := by
  rw [Compilation.andThen]
  rcases second t with ⟨_ | g, v⟩ <;> rfl

theorem Compilation.map_eq_ok {c : Compilation} {change : Formula → Except Error Formula} {f : Formula}
    (h : (c.map change).1 = .ok f) :
    ∃ g, c.1 = .ok g ∧ change g = .ok f := by
  obtain ⟨r, t⟩ := c
  cases r with
  | error e => cases h
  | ok g => exact ⟨g, rfl, h⟩

theorem Compilation.andThen_eq_ok {c : Compilation} {second : PredicateTable → Compilation}
    {join : Formula → Formula → Except Error Formula} {f : Formula}
    (h : (c.andThen second join).1 = .ok f) :
    ∃ g h, c.1 = .ok g ∧ (second c.2).1 = .ok h ∧ (c.andThen second join).2 = (second c.2).2 := by
  obtain ⟨r, t⟩ := c
  cases r with
  | error e => cases h
  | ok g =>
    rw [andThen_ok] at h ⊢
    cases hs : (second t).1 with
    | error e =>
      rw [hs] at h
      cases h
    | ok g' => exact ⟨g, g', rfl, rfl, rfl⟩

/-- What compiling an expression makes of a table. -/
structure Expression.IsCompiled (imports : Imports) (e : Expression) (t : PredicateTable)
    (c : Compilation) : Prop where
  extended : t.Extends c.2
  added : ∀ p ∈ c.2.predicates, p ∈ t.predicates ∨ p ∈ e.leaves imports
  reduced : ∀ f, c.1 = .ok f → f.IsReduced
  linked : ∀ f, c.1 = .ok f → ∀ id ∈ f.predicates,
    ∃ p, c.2.get? id = some p ∧ ∃ l ∈ e.leaves imports, p.signature = l.signature
  decides : ∀ f, c.1 = .ok f → ∀ truth : String → Option Bool,
    f.Decides (c.2.signed truth) (e.verdict imports fun l => truth l.signature)

namespace Expression

namespace IsCompiled

variable {imports : Imports} {e left right operand : Expression} {t u : PredicateTable}
  {c : Compilation}

theorem error (hext : t.Extends u) (hadded : ∀ p ∈ u.predicates, p ∈ t.predicates ∨
    p ∈ e.leaves imports) (err : Error) : IsCompiled imports e t (.error err, u) where
  extended := hext
  added := hadded
  reduced _ h := nomatch h
  linked _ h := nomatch h
  decides _ h := nomatch h

/-- An expression that is a predicate. -/
theorem predicate (hleaves : e.leaves imports = [e.resolveImports imports])
    (hverdict : ∀ truth, e.verdict imports truth = truth (e.resolveImports imports)) :
    IsCompiled imports e t (compilePredicate imports e t) := by
  unfold compilePredicate
  split
  · rename_i id u h
    obtain ⟨hext, ⟨p, hp, hsig⟩, hadd⟩ := PredicateTable.intern_spec h
    constructor
    case extended => exact hext
    case added =>
      intro q hq
      rw [hleaves, List.mem_singleton]
      exact hadd q hq
    case reduced =>
      rintro f ⟨⟩
      exact Formula.isReduced_ofLiteral _
    case linked =>
      rintro f ⟨⟩ i hi
      rw [Formula.mem_predicates_of_literal hi]
      exact ⟨p, hp, _, by rw [hleaves]; exact List.mem_singleton.2 rfl, hsig⟩
    case decides =>
      rintro f ⟨⟩ truth
      have hvalue : e.verdict imports (fun l => truth l.signature) = u.signed truth id := by
        rw [hverdict, PredicateTable.signed, hp]
        exact congrArg truth hsig.symm
      rw [hvalue]
      exact Formula.decides_ofPredicate id
  · exact .error (.refl t) (fun q hq => .inl hq) _

/-- A negation. -/
theorem not (h : IsCompiled imports operand t c) (limit : Nat)
    (hleaves : e.leaves imports = operand.leaves imports)
    (hverdict : ∀ truth, e.verdict imports truth = (operand.verdict imports truth).map (!·)) :
    IsCompiled imports e t (c.map fun f => f.negate.bounded limit) := by
  obtain ⟨r, u⟩ := c
  have hadded : ∀ p ∈ u.predicates, p ∈ t.predicates ∨ p ∈ e.leaves imports := by
    rw [hleaves]
    exact h.added
  cases r with
  | error err => exact .error h.extended hadded err
  | ok f =>
    constructor
    case extended => exact h.extended
    case added => exact hadded
    case reduced =>
      intro g he
      rw [Formula.bounded_eq_ok he]
      exact Formula.isReduced_negate f
    case linked =>
      intro g he id hid
      rw [Formula.bounded_eq_ok he] at hid
      rw [hleaves]
      exact h.linked f rfl id (Formula.mem_predicates_of_negate hid)
    case decides =>
      intro g he truth
      rw [Formula.bounded_eq_ok he, hverdict]
      exact (h.decides f rfl truth).negate

theorem constant {b : Bool} (hverdict : ∀ truth, e.verdict imports truth = some b) :
    IsCompiled imports e t (.ok (.constant b), t) := by
  constructor
  case extended => exact .refl t
  case added => exact fun p hp => .inl hp
  case reduced =>
    rintro f ⟨⟩
    exact Formula.isReduced_constant b
  case linked =>
    rintro f ⟨⟩ id hid
    exact absurd hid (Formula.not_mem_predicates_constant b)
  case decides =>
    rintro f ⟨⟩ truth
    rw [hverdict]
    exact Formula.decides_constant b

theorem group {inner : Expression} (h : IsCompiled imports inner t c)
    (hleaves : e.leaves imports = inner.leaves imports)
    (hverdict : ∀ truth, e.verdict imports truth = inner.verdict imports truth) :
    IsCompiled imports e t c := by
  constructor
  case extended => exact h.extended
  case added =>
    rw [hleaves]
    exact h.added
  case reduced => exact h.reduced
  case linked =>
    rw [hleaves]
    exact h.linked
  case decides =>
    intro f hf truth
    rw [hverdict]
    exact h.decides f hf truth

/-- An expression whose operands are joined. -/
theorem andThen {second : PredicateTable → Compilation}
    {join : Formula → Formula → Except Error Formula}
    {connective : Option Bool → Option Bool → Option Bool}
    (hfirst : IsCompiled imports left t c)
    (hsecond : ∀ u, IsCompiled imports right u (second u)) (hjoin : Formula.Joins join connective)
    (hleaves : e.leaves imports = left.leaves imports ++ right.leaves imports)
    (hverdict : ∀ truth, e.verdict imports truth =
      connective (left.verdict imports truth) (right.verdict imports truth)) :
    IsCompiled imports e t (c.andThen second join) := by
  obtain ⟨r, u⟩ := c
  cases r with
  | error err =>
    refine .error hfirst.extended (fun p hp => ?_) err
    rw [hleaves, List.mem_append]
    exact (hfirst.added p hp).imp_right .inl
  | ok f =>
    have hs := hsecond u
    rw [Compilation.andThen_ok]
    revert hs
    rcases second u with ⟨r, v⟩
    intro hs
    have hext : t.Extends v := hfirst.extended.trans hs.extended
    have hadded (p : Expression) (hp : p ∈ v.predicates) :
        p ∈ t.predicates ∨ p ∈ e.leaves imports := by
      rw [hleaves, List.mem_append]
      rcases hs.added p hp with hp | hp
      · exact (hfirst.added p hp).imp_right .inl
      · exact .inr (.inr hp)
    cases r with
    | error err => exact .error hext hadded err
    | ok g =>
      constructor
      case extended => exact hext
      case added => exact hadded
      case reduced =>
        intro h he
        exact hjoin.reduced f g h he (hfirst.reduced f rfl) (hs.reduced g rfl)
      case linked =>
        intro h he id hid
        rw [hleaves]
        rcases hjoin.predicates f g h he id hid with hid | hid
        · obtain ⟨p, hp, l, hl, hsig⟩ := hfirst.linked f rfl id hid
          exact ⟨p, hs.extended.get? hp, l, List.mem_append_left _ hl, hsig⟩
        · obtain ⟨p, hp, l, hl, hsig⟩ := hs.linked g rfl id hid
          exact ⟨p, hp, l, List.mem_append_right _ hl, hsig⟩
      case decides =>
        intro h he truth
        rw [hverdict]
        refine hjoin.decides f g h he _ _ _ ?_ (hs.decides g rfl truth)
        refine (hfirst.decides f rfl truth).congr fun id hid => ?_
        obtain ⟨p, hp, -⟩ := hfirst.linked f rfl id hid
        exact hs.extended.signed hp truth

end IsCompiled

/-- Compiling confirms the truth value of a target. The induction is that of the leaves, which reaches
both operands of a connective. -/
theorem isCompiled_compile (imports : Imports) (limit : Nat) (e : Expression)
    (t : PredicateTable) : IsCompiled imports e t (e.compile imports limit t) := by
  induction e using Expression.leaves.induct generalizing t with
  | case1 b =>
    rw [compile]
    exact .constant fun truth => by rw [verdict]
  | case2 inner ih =>
    rw [compile]
    exact (ih t).group (by rw [leaves]) fun truth => by rw [verdict]
  | case3 operand ih =>
    rw [compile]
    exact (ih t).not limit (by rw [leaves]) fun truth => by rw [verdict]
  | case4 left right ihl ihr =>
    rw [compile]
    exact (ihl t).andThen ihr (Formula.joins_lazyAnd limit) (by rw [leaves])
      fun truth => by rw [verdict]
  | case5 left right ihl ihr =>
    rw [compile]
    exact (ihl t).andThen ihr (Formula.joins_eagerAnd limit) (by rw [leaves])
      fun truth => by rw [verdict]
  | case6 left right ihl ihr =>
    rw [compile]
    exact (ihl t).andThen ihr (Formula.joins_lazyOr limit) (by rw [leaves])
      fun truth => by rw [verdict]
  | case7 left right ihl ihr =>
    rw [compile]
    exact (ihl t).andThen ihr (Formula.joins_eagerOr limit) (by rw [leaves])
      fun truth => by rw [verdict]
  | case8 op left right hand heagerAnd hor heagerOr =>
    rw [compile]
    · exact .predicate (by rw [leaves] <;> assumption) fun truth => by rw [verdict] <;> assumption
    all_goals assumption
  | case9 e hbool hgroup hnot hbinary =>
    rw [compile]
    · exact .predicate (by rw [leaves] <;> assumption) fun truth => by rw [verdict] <;> assumption
    all_goals assumption

end Expression
end PolicyDecision
