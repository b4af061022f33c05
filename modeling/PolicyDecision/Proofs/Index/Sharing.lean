import PolicyDecision.Proofs.Evaluation.Constant
import PolicyDecision.Proofs.Index.Reachable
import PolicyDecision.Proofs.Syntax.Literals

/-!
# PolicyDecision.Proofs.Index.Sharing

When one predicate may stand for another.

* `PredicateTable.Slot`: what becomes of a slot of the table as predicates are added and dropped.
* `Expression.SharesSlot`: two predicates are given one slot.
* `Expression.sharesSlot_iff`: they are if and only if they differ in the key order of their literals only.
* `Expression.evaluate_eq_of_sharesSlot_iff`: predicates in one slot always have the same value exactly if
  their literals are written in one order.
-/

namespace PolicyDecision

namespace PredicateTable

/-- The slot of a later table that was the slot `i` of the table `s`. -/
inductive Slot (s : PredicateTable) (i : PredicateId) : PredicateTable → PredicateId → Prop
  | refl : Slot s i s i
  | intern {t u : PredicateTable} {j k : PredicateId} {e : Expression} :
    Slot s i t j → t.intern e = .ok (k, u) → Slot s i u j
  | compact {t : PredicateTable} {j : PredicateId} {live : OrderedSet PredicateId} :
    Slot s i t j → j ∈ live → Slot s i (t.compacted live) (t.renumber live j)

variable {s t : PredicateTable} {i j : PredicateId} {p : Expression}

/-- The predicate of a slot never changes. -/
theorem Slot.get? (h : s.Slot i t j) : s.get? i = some p → t.get? j = some p := by
  intro hp
  induction h with
  | refl => exact hp
  | intern _ hintern ih => exact (intern_spec hintern).1.get? ih
  | compact _ hj ih =>
    have hlt := (List.getElem?_eq_some_iff.1 ih).1
    rw [get?_compacted hlt hj]
    exact ih

end PredicateTable

namespace Expression

/-- Two predicates are given one slot, the second one possibly much later. -/
def SharesSlot (p q : Expression) : Prop :=
  ∃ (t s u v : PredicateTable) (i j : PredicateId),
    t.intern p = .ok (i, s) ∧ s.Slot i u j ∧ u.intern q = .ok (j, v)

variable {p q : Expression}

theorem signature_eq_of_sharesSlot (h : p.SharesSlot q) : p.signature = q.signature := by
  obtain ⟨t, s, u, v, i, j, hp, hslot, hq⟩ := h
  obtain ⟨-, ⟨r, hr, hsig⟩, -⟩ := PredicateTable.intern_spec hp
  obtain ⟨hext, ⟨r', hr', hsig'⟩, -⟩ := PredicateTable.intern_spec hq
  have hsame := hext.get? (hslot.get? hr)
  rw [hr'] at hsame
  cases hsame
  exact hsig.symm.trans hsig'

theorem intern_of_signature_eq (h : p.signature = q.signature) :
    PredicateTable.intern ⟨[p]⟩ q = .ok (0, ⟨[p]⟩) := by
  simp [PredicateTable.intern, PredicateTable.find?, h]

theorem sharesSlot_of_signature_eq (h : p.signature = q.signature) : p.SharesSlot q := by
  have hp : PredicateTable.empty.intern p = .ok (0, ⟨[p]⟩) := rfl
  exact ⟨_, _, _, _, 0, 0, hp, .refl, intern_of_signature_eq h⟩

/-- Predicates are given one slot if and only if they differ in the key order of their literals
only. -/
theorem sharesSlot_iff : p.SharesSlot q ↔ p.sortLiterals = q.sortLiterals := by
  rw [← signature_eq_iff]
  exact ⟨signature_eq_of_sharesSlot, sharesSlot_of_signature_eq⟩

/-- The literals of an expression are texts, or among some words. -/
def IsOver (words : Json → Prop) (e : Expression) : Prop :=
  ∀ v ∈ e.literals, words v ∨ ∃ s, v = .string s

end Expression

/-! ## Vocabularies -/

theorem Json.eq_string_of_sortKeys {v : Json} {s : String} (h : v.sortKeys = .string s) :
    v = .string s := by
  cases v with
  | string t => exact h
  | _ => simp [Json.sortKeys] at h

/-- Texts have no fields to be put in order. -/
theorem Json.OneOrder.withTexts {words : Json → Prop} (h : Json.OneOrder words) :
    Json.OneOrder fun v => words v ∨ ∃ s, v = .string s := by
  intro v w hv hw heq
  rcases hv with hv | ⟨s, rfl⟩
  · rcases hw with hw | ⟨s, rfl⟩
    · exact h v w hv hw heq
    · exact Json.eq_string_of_sortKeys heq
  · exact (Json.eq_string_of_sortKeys heq.symm).symm

theorem Stream.just_injective {α : Type} {a b : α} (h : Stream.just a = Stream.just b) : a = b := by
  have hflow := congrFun (congrFun h fun _ => {}) []
  have hevents := congrArg Flow.events hflow
  simpa [Stream.just, Flow.just] using hevents

namespace Expression

def ofLiteral (v : Json) : Expression := .basic (.value v) [] none

/-- Whether the text of a value is the given one. -/
def textIs (v : Json) (text : String) : Expression :=
  .binary .equals (.binary .plus (ofLiteral (.string "")) (ofLiteral v)) (ofLiteral (.string text))

theorem evaluate_ofLiteral (ctx : Context) (v : Json) :
    (ofLiteral v).evaluate ctx = .just (.defined v) := rfl

theorem evaluate_textIs (ctx : Context) {v : Json} (hv : ∀ s, v ≠ .string s) (text : String) :
    (textIs v text).evaluate ctx = .just (.ofBool (v.text == text)) := by
  have hplus : (Expression.binary .plus (ofLiteral (.string "")) (ofLiteral v)).evaluate ctx = _ :=
    evaluate_binary_just (by simp) (by simp) (evaluate_ofLiteral ctx (.string ""))
      (evaluate_ofLiteral ctx v)
  have hjoin : BinaryOperator.plus.apply (.defined (.string "")) (.defined v) ctx.patterns =
      .defined (.string v.text) := by
    cases v with
    | string s => exact absurd rfl (hv s)
    | _ => simp [BinaryOperator.apply, BinaryOperator.applyDefined, BinaryOperator.addOrJoin,
        BinaryOperator.plainText, Val.isError, Val.string?, Val.json?, Json.string?, Val.text]
  rw [hjoin] at hplus
  exact evaluate_binary_just (by simp) (by simp) hplus (evaluate_ofLiteral ctx (.string text))

theorem literals_textIs (v : Json) (text : String) :
    (textIs v text).literals = [.string "", v, .string text] := rfl

theorem isOver_textIs {words : Json → Prop} {v : Json} (hv : words v) (text : String) :
    (textIs v text).IsOver words := by
  intro l hl
  rw [literals_textIs] at hl
  simp only [List.mem_cons, List.not_mem_nil, or_false] at hl
  rcases hl with rfl | rfl | rfl
  · exact .inr ⟨"", rfl⟩
  · exact .inl hv
  · exact .inr ⟨text, rfl⟩

/-- Predicates of one slot always have the same value if and only if their literals are written in one
order: otherwise a comparison with the text of a literal tells its orders apart, which the slot does
not. -/
theorem evaluate_eq_of_sharesSlot_iff (words : Json → Prop) :
    (∀ p q : Expression, p.containsFinder = false → q.containsFinder = false →
      p.IsOver words → q.IsOver words → p.SharesSlot q → ∀ ctx, p.evaluate ctx = q.evaluate ctx) ↔
      Json.OneOrder words := by
  constructor
  · intro h v w hv hw heq
    by_cases hstring : ∃ s, v = .string s
    · obtain ⟨s, rfl⟩ := hstring
      exact (Json.eq_string_of_sortKeys heq.symm).symm
    · have hnv : ∀ s, v ≠ .string s := fun s hs => hstring ⟨s, hs⟩
      have hnw : ∀ s, w ≠ .string s := by
        rintro s rfl
        exact hnv s (Json.eq_string_of_sortKeys heq)
      have hshare : (textIs v v.text).SharesSlot (textIs w v.text) := by
        rw [sharesSlot_iff]
        simp [textIs, ofLiteral, sortLiterals, Head.sortLiterals, heq]
      have hsame := h _ _ rfl rfl (isOver_textIs hv _) (isOver_textIs hw _) hshare {}
      rw [evaluate_textIs {} hnv, evaluate_textIs {} hnw] at hsame
      have htext : w.text = v.text := by
        simpa [Val.ofBool] using Stream.just_injective hsame
      exact (Json.text_injective htext).symm
  · intro h p q _ _ hp hq hshare ctx
    have heq := Expression.eq_of_sortLiterals_eq h.withTexts p q hp hq (sharesSlot_iff.1 hshare)
    rw [heq]

/-- The two ways to write an object with two fields have one slot and different values. -/
theorem evaluate_ne_of_sharesSlot :
    ∃ p q : Expression, p.containsFinder = false ∧ q.containsFinder = false ∧
      PredicateTable.empty.intern p = .ok (0, ⟨[p]⟩) ∧
      PredicateTable.intern ⟨[p]⟩ q = .ok (0, ⟨[p]⟩) ∧
      p.evaluate {} = .just (.ofBool true) ∧ q.evaluate {} = .just (.ofBool false) := by
  refine ⟨textIs (.object [("a", .ofNat 1), ("b", .ofNat 2)]) "\x7b\"a\":1,\"b\":2\x7d",
    textIs (.object [("b", .ofNat 2), ("a", .ofNat 1)]) "\x7b\"a\":1,\"b\":2\x7d",
    rfl, rfl, rfl, intern_of_signature_eq (signature_eq_iff.2 ?_), ?_, ?_⟩
  · simp [textIs, ofLiteral, sortLiterals, Head.sortLiterals, Json.sortKeys, Json.sortKeysFields,
      SortedTable.place, -String.lt_iff_ltb]
  · rw [evaluate_textIs {} (by simp)]
    rfl
  · rw [evaluate_textIs {} (by simp)]
    rfl

end Expression
end PolicyDecision
