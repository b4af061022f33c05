import PolicyDecision.Proofs.Evaluation.Direct
import PolicyDecision.Proofs.Json.Update

/-!
# PolicyDecision.Proofs.Evaluation.Selection

The positions that the target of a filter statement selects in a value.

* `Step.picks`, `Step.Selects`: what a step selects among the children of a container; a recursive
  step looks for the outermost ones at any depth.
* `Step.Fails`: where a step gives an error instead.
* `TargetSelects`, `TargetFails`: the same for a whole target, one step inside of what the step
  before selects.
* `TargetSelects.at?`: the positions are there, and lie in the containers that go with them.
-/

namespace PolicyDecision

/-! ## Selected positions -/

namespace Step

/-- Whether a step selects a child of a container. -/
def picks (s : Scope) : Step → Json → Key → Json → Bool
  | .key name, _, .field k, _ => k == name
  | .recursiveKey name, _, .field k, _ => k == name
  | .index n, .array items, .element i, _ => some i == normalizeIndex n.toInt items.length
  | .recursiveIndex n, .array items, .element i, _ =>
    some i == normalizeIndex n.toInt items.length
  | .wildcard, _, _, _ => true
  | .slice start stop stride, .array items, .element i, _ =>
    match sliceIndices items.length (start.map (·.toInt)) (stop.map (·.toInt))
        (stride.map (·.toInt)) with
    | .ok indices => indices.contains i
    | .error _ => false
  | .condition e, _, _, w => (e.denote (s.withNode (.defined w))).bool? == some true
  | _, _, _, _ => false

def isRecursive : Step → Bool
  | .recursiveKey _ | .recursiveIndex _ => true
  | _ => false

/-- The error of a step on a container as a whole: that of a slice with stride zero. -/
def refusal? : Step → Json → Option Val
  | .slice start stop stride, .array items =>
    match sliceIndices items.length (start.map (·.toInt)) (stop.map (·.toInt))
        (stride.map (·.toInt)) with
    | .ok _ => none
    | .error fault => some (.fault fault)
  | _, _ => none

/-- The error of a condition on a child that it does not decide on. -/
def undecided? (s : Scope) : Step → Json → Option Val
  | .condition e, w => (e.denote (s.withNode (.defined w))).undecided?
  | _, _ => none

/-- A step selects the value `w` in the container `c` at a position. -/
inductive Selects (s : Scope) (step : Step) : Json → Path → (c w : Json) → Prop
  | child {v w : Json} {k : Key} (child : v.child? k = some w)
      (picked : step.picks s v k w = true) : Selects s step v [k] v w
  /-- A recursive step goes on in a child that it does not select. -/
  | inside {v u c w : Json} {k : Key} {p : Path} (child : v.child? k = some u)
      (recursive : step.isRecursive = true) (passed : step.picks s v k u = false)
      (rest : Selects s step u p c w) : Selects s step v (k :: p) c w

/-- A step gives an error at a position. -/
inductive Fails (s : Scope) (step : Step) (v : Json) : Path → Val → Prop
  | whole {x : Val} (refused : step.refusal? v = some x) : Fails s step v [] x
  | child {w : Json} {k : Key} {x : Val} (child : v.child? k = some w)
      (undecided : step.undecided? s w = some x) : Fails s step v [k] x

end Step

/-- A target selects the value `w` in the container `c` at a position. The empty target selects the
whole value, as if it contained itself. -/
inductive TargetSelects (s : Scope) : List Step → Json → Path → (c w : Json) → Prop
  | here (v : Json) : TargetSelects s [] v [] v v
  | last {step : Step} {v c w : Json} {p : Path} (selected : step.Selects s v p c w) :
      TargetSelects s [step] v p c w
  | through {step next : Step} {rest : List Step} {v c u d w : Json} {p q : Path}
      (selected : step.Selects s v p c u) (reached : TargetSelects s (next :: rest) u q d w) :
      TargetSelects s (step :: next :: rest) v (p ++ q) d w

/-- A target gives an error at a position. -/
inductive TargetFails (s : Scope) : List Step → Json → Path → Val → Prop
  | here {step : Step} {rest : List Step} {v : Json} {p : Path} {x : Val}
      (failed : step.Fails s v p x) : TargetFails s (step :: rest) v p x
  | inside {step : Step} {rest : List Step} {v c u : Json} {p q : Path} {x : Val}
      (selected : step.Selects s v p c u) (failed : TargetFails s rest u q x) :
      TargetFails s (step :: rest) v (p ++ q) x

section

variable {s : Scope} {step : Step} {v c w : Json} {k : Key} {p : Path} {x : Val}

namespace Step

theorem selects_cons_iff :
    step.Selects s v (k :: p) c w ↔
      (p = [] ∧ c = v ∧ v.child? k = some w ∧ step.picks s v k w = true) ∨
      ∃ u, v.child? k = some u ∧ step.isRecursive = true ∧ step.picks s v k u = false ∧
        step.Selects s u p c w := by
  constructor
  · rintro (⟨hchild, hpicked⟩ | ⟨hchild, hrec, hpassed, hrest⟩)
    · exact .inl ⟨rfl, rfl, hchild, hpicked⟩
    · exact .inr ⟨_, hchild, hrec, hpassed, hrest⟩
  · rintro (⟨rfl, rfl, hchild, hpicked⟩ | ⟨u, hchild, hrec, hpassed, hrest⟩)
    · exact .child hchild hpicked
    · exact .inside hchild hrec hpassed hrest

theorem not_selects_nil : ¬ step.Selects s v [] c w := nofun

theorem fails_nil_iff : step.Fails s v [] x ↔ step.refusal? v = some x :=
  ⟨fun | .whole h => h, .whole⟩

theorem fails_cons_iff :
    step.Fails s v (k :: p) x ↔
      p = [] ∧ ∃ w, v.child? k = some w ∧ step.undecided? s w = some x := by
  constructor
  · rintro ⟨⟩
    rename_i w hchild hundecided
    exact ⟨rfl, w, hchild, hundecided⟩
  · rintro ⟨rfl, w, hchild, hundecided⟩
    exact .child hchild hundecided

/-- A step selects parts of the value, and the container is the part right above. -/
theorem Selects.at? (h : step.Selects s v p c w) :
    v.at? p = some w ∧ v.at? p.dropLast = some c ∧ p ≠ [] := by
  induction h with
  | child hchild _ => exact ⟨by rw [Json.at?, hchild]; rfl, rfl, List.cons_ne_nil _ _⟩
  | inside hchild _ _ _ ih =>
    obtain ⟨hw, hc, hne⟩ := ih
    refine ⟨?_, ?_, List.cons_ne_nil _ _⟩
    · rw [Json.at?, hchild]
      exact hw
    · rw [List.dropLast_cons_of_ne_nil hne, Json.at?, hchild]
      exact hc

/-- A step that refuses a container selects nothing in it. -/
theorem eq_none_of_refusal? (h : step.refusal? v = some x) :
    step.isRecursive = false ∧ step.undecided? s w = none ∧ step.picks s v k w = false := by
  cases step with
  | slice start stop stride =>
    cases v with
    | array items =>
      refine ⟨rfl, rfl, ?_⟩
      cases k with
      | field name => rfl
      | element i =>
        rw [refusal?] at h
        rw [picks]
        split
        · rename_i indices hindices
          rw [hindices] at h
          cases h
        · rfl
    | _ => cases h
  | _ => cases h

theorem not_fails_of_isRecursive (h : step.isRecursive = true) : ¬ step.Fails s v p x := by
  rintro (hrefused | ⟨_, hundecided⟩)
  · cases step with
    | slice start stop stride => cases h
    | _ => cases hrefused
  · cases step with
    | condition e => cases h
    | _ => cases hundecided

theorem undecided?_of_picks (h : step.picks s v k w = true) : step.undecided? s w = none := by
  cases step with
  | condition e =>
    have htrue : (e.denote (s.withNode (.defined w))).bool? = some true := by
      simpa [picks] using h
    rw [undecided?]
    cases hval : e.denote (s.withNode (.defined w)) with
    | defined j =>
      rw [hval] at htrue
      cases j with
      | bool b => rfl
      | _ => cases htrue
    | undefined => rw [hval] at htrue; cases htrue
    | error message => rw [hval] at htrue; cases htrue
  | _ => rfl

theorem undecided?_of_isRecursive (h : step.isRecursive = true) : step.undecided? s w = none := by
  cases step with
  | condition condition => cases h
  | _ => rfl

end Step

section

variable {next : Step} {rest : List Step}

theorem targetSelects_nil_iff : TargetSelects s [] v p c w ↔ p = [] ∧ c = v ∧ w = v := by
  constructor
  · rintro ⟨⟩
    exact ⟨rfl, rfl, rfl⟩
  · rintro ⟨rfl, rfl, rfl⟩
    exact .here _

theorem targetSelects_singleton_iff : TargetSelects s [step] v p c w ↔ step.Selects s v p c w :=
  ⟨fun | .last h => h, .last⟩

theorem targetSelects_cons_cons_iff :
    TargetSelects s (step :: next :: rest) v p c w ↔
      ∃ p' q d u, p = p' ++ q ∧ step.Selects s v p' d u ∧
        TargetSelects s (next :: rest) u q c w := by
  constructor
  · intro h
    cases h with
    | through hsel hreached => exact ⟨_, _, _, _, rfl, hsel, hreached⟩
  · rintro ⟨p', q, d, u, rfl, hsel, hreached⟩
    exact .through hsel hreached

theorem not_targetFails_nil : ¬ TargetFails s [] v p x := nofun

theorem targetFails_cons_iff :
    TargetFails s (step :: rest) v p x ↔
      step.Fails s v p x ∨
      ∃ p' q c u, p = p' ++ q ∧ step.Selects s v p' c u ∧ TargetFails s rest u q x := by
  constructor
  · intro h
    cases h with
    | here hfailed => exact .inl hfailed
    | inside hsel hfailed => exact .inr ⟨_, _, _, _, rfl, hsel, hfailed⟩
  · rintro (hfailed | ⟨p', q, c, u, rfl, hsel, hfailed⟩)
    · exact .here hfailed
    · exact .inside hsel hfailed

end

/-- A target selects parts of the value, and the container is the part right above, or the value
itself where the target is empty. -/
theorem TargetSelects.at? {target : List Step} (h : TargetSelects s target v p c w) :
    v.at? p = some w ∧ v.at? p.dropLast = some c ∧ (target ≠ [] → p ≠ []) := by
  induction h with
  | here v => exact ⟨rfl, rfl, fun h => absurd rfl h⟩
  | last hsel =>
    obtain ⟨hw, hc, hne⟩ := hsel.at?
    exact ⟨hw, hc, fun _ => hne⟩
  | through hsel _ ih =>
    obtain ⟨hu, _, hne⟩ := hsel.at?
    obtain ⟨hw, hc, hrest⟩ := ih
    have hq := hrest (List.cons_ne_nil _ _)
    refine ⟨?_, ?_, fun _ h => hq (List.append_eq_nil_iff.1 h).2⟩
    · rw [Json.at?_append, hu]
      exact hw
    · rw [List.dropLast_append_of_ne_nil hq, Json.at?_append, hu]
      exact hc

end

end PolicyDecision
