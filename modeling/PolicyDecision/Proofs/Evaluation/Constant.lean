import PolicyDecision.Proofs.Evaluation.SingleValued
import PolicyDecision.Proofs.Index.Compilation

/-!
# PolicyDecision.Proofs.Evaluation.Constant

Evaluation in targets.

In a target nothing is subscribed, so every expression has one value from the start.

* `Expression.evaluate_forTarget`: in a target every expression is a stream of one item.
* `targetOutcome_and`, `targetOutcome_or`, …: the truth value of a connective comes from those of its
  operands.
-/

namespace PolicyDecision

/-- In a target every expression has one value from the start. -/
theorem Expression.evaluate_forTarget (e : Expression) (ctx : Context) :
    ∃ v, e.evaluate ctx.forTarget = .just v :=
  ⟨_, e.evaluate_eq_just (.inl rfl)⟩

/-! ## Truth values of targets -/

/-- The truth value that a target evaluator gives a predicate, if it does not fail. -/
def targetTruth (ctx : Context) (e : Expression) : Option Bool :=
  (targetEvaluator ctx e).toOption

theorem targetTruth_of_evaluate {ctx : Context} {e : Expression} {v : Val}
    (h : e.evaluate ctx.forTarget = .just v) : targetTruth ctx e = v.bool? := by
  unfold targetTruth targetEvaluator
  rw [h]
  cases v with
  | undefined => rfl
  | error message => rfl
  | defined j => cases j <;> rfl

theorem targetTruth_literal (ctx : Context) (b : Bool) :
    targetTruth ctx (.basic (.value (.bool b)) [] none) = some b := by
  have h : (Expression.basic (.value (.bool b)) [] none).evaluate ctx.forTarget =
      .just (.ofBool b) := rfl
  exact targetTruth_of_evaluate h

theorem targetTruth_group (ctx : Context) (inner : Expression) :
    targetTruth ctx (.basic (.group inner) [] none) = targetTruth ctx inner := by
  obtain ⟨v, hv⟩ := inner.evaluate_forTarget ctx
  rw [targetTruth_of_evaluate hv]
  exact targetTruth_of_evaluate hv

theorem Val.eq_of_bool? {v : Val} {b : Bool} (h : v.bool? = some b) : v = .ofBool b := by
  cases v with
  | undefined => cases h
  | error message => cases h
  | defined j =>
    cases j with
    | bool c =>
      cases h
      rfl
    | _ => cases h

theorem Val.bool?_of_isError {v : Val} (h : v.isError = true) : v.bool? = none := by
  cases v with
  | error message => rfl
  | _ => cases h

theorem UnaryOperator.bool?_apply_not (v : Val) :
    (UnaryOperator.not.apply v).bool? = v.bool?.map (!·) := by
  cases h : v.bool? with
  | some b =>
    rw [Val.eq_of_bool? h]
    rfl
  | none =>
    unfold UnaryOperator.apply
    split
    · exact h
    · simp only [h]
      rfl

namespace BinaryOperator

theorem bool?_onBooleans (f : Bool → Bool → Bool) (a b : Val) :
    (onBooleans f a b).bool? = a.bool?.bind fun x => b.bool?.map (f x) := by
  unfold onBooleans
  cases a.bool? with
  | none => rfl
  | some x => cases b.bool? <;> rfl

/-- A connective has a truth value where both operands have one. -/
theorem bool?_apply (op : BinaryOperator) {f : Bool → Bool → Bool}
    (hop : ∀ a b patterns, op.applyDefined a b patterns = onBooleans f a b) (a b : Val)
    (patterns : PatternDialect) :
    (op.apply a b patterns).bool? = a.bool?.bind fun x => b.bool?.map (f x) := by
  unfold apply
  split
  · rename_i ha
    simp [Val.bool?_of_isError ha]
  · split
    · rename_i hb
      simp [Val.bool?_of_isError hb]
    · rw [hop, bool?_onBooleans]

end BinaryOperator

theorem targetTruth_not (ctx : Context) (operand : Expression) :
    targetTruth ctx (.unary .not operand) = (targetTruth ctx operand).map (!·) := by
  obtain ⟨v, hv⟩ := operand.evaluate_forTarget ctx
  rw [targetTruth_of_evaluate hv, ← UnaryOperator.bool?_apply_not]
  refine targetTruth_of_evaluate ?_
  rw [Expression.evaluate, hv, Stream.map_just]

theorem bool?_decided (op : BinaryOperator) (deciding : Bool) {patterns : PatternDialect}
    (hop : ∀ b : Val, (op.apply (.ofBool !deciding) b patterns).bool? = b.bool?) (a b : Val) :
    ((decided? deciding a).getD (op.apply a b patterns)).bool? =
      lazyVerdict deciding a.bool? b.bool? := by
  cases ha : a.bool? with
  | none =>
    unfold decided?
    split
    · simpa [lazyVerdict] using ha
    · simp only [ha]
      rfl
  | some x =>
    have hval := Val.eq_of_bool? ha
    subst hval
    by_cases hx : x = deciding
    · subst hx
      simp [decided?, lazyVerdict, Val.isError, Val.ofBool, Val.bool?, Val.json?, Json.bool?]
    · have hx' : x = !deciding := by
        cases x <;> cases deciding <;> simp_all
      subst hx'
      have hnone : decided? deciding (.ofBool !deciding) = none := by
        cases deciding <;> rfl
      rw [hnone, Option.getD_none, hop]
      simp [lazyVerdict]

theorem targetTruth_and (ctx : Context) (left right : Expression) :
    targetTruth ctx (.binary .and left right) =
      lazyVerdict false (targetTruth ctx left) (targetTruth ctx right) := by
  obtain ⟨a, ha⟩ := left.evaluate_forTarget ctx
  obtain ⟨b, hb⟩ := right.evaluate_forTarget ctx
  have hop (b : Val) :
      (BinaryOperator.and.apply (.ofBool true) b ctx.forTarget.patterns).bool? = b.bool? := by
    rw [BinaryOperator.bool?_apply _ fun _ _ _ => rfl]
    simp [Val.ofBool, Val.bool?, Val.json?, Json.bool?]
  rw [targetTruth_of_evaluate ha, targetTruth_of_evaluate hb, ← bool?_decided .and false hop]
  refine targetTruth_of_evaluate ?_
  rw [Expression.evaluate, ha, hb, evaluateLazy_just]

theorem targetTruth_or (ctx : Context) (left right : Expression) :
    targetTruth ctx (.binary .or left right) =
      lazyVerdict true (targetTruth ctx left) (targetTruth ctx right) := by
  obtain ⟨a, ha⟩ := left.evaluate_forTarget ctx
  obtain ⟨b, hb⟩ := right.evaluate_forTarget ctx
  have hop (b : Val) :
      (BinaryOperator.or.apply (.ofBool false) b ctx.forTarget.patterns).bool? = b.bool? := by
    rw [BinaryOperator.bool?_apply _ fun _ _ _ => rfl]
    simp [Val.ofBool, Val.bool?, Val.json?, Json.bool?]
  rw [targetTruth_of_evaluate ha, targetTruth_of_evaluate hb, ← bool?_decided .or true hop]
  refine targetTruth_of_evaluate ?_
  rw [Expression.evaluate, ha, hb, evaluateLazy_just]

theorem targetTruth_eagerAnd (ctx : Context) (left right : Expression) :
    targetTruth ctx (.binary .eagerAnd left right) =
      (targetTruth ctx left).bind fun x => (targetTruth ctx right).map (x && ·) := by
  obtain ⟨a, ha⟩ := left.evaluate_forTarget ctx
  obtain ⟨b, hb⟩ := right.evaluate_forTarget ctx
  rw [targetTruth_of_evaluate ha, targetTruth_of_evaluate hb,
    ← BinaryOperator.bool?_apply .eagerAnd (fun _ _ _ => rfl) a b ctx.forTarget.patterns]
  exact targetTruth_of_evaluate (evaluate_binary_just (by simp) (by simp) ha hb)

theorem targetTruth_eagerOr (ctx : Context) (left right : Expression) :
    targetTruth ctx (.binary .eagerOr left right) =
      (targetTruth ctx left).bind fun x => (targetTruth ctx right).map (x || ·) := by
  obtain ⟨a, ha⟩ := left.evaluate_forTarget ctx
  obtain ⟨b, hb⟩ := right.evaluate_forTarget ctx
  rw [targetTruth_of_evaluate ha, targetTruth_of_evaluate hb,
    ← BinaryOperator.bool?_apply .eagerOr (fun _ _ _ => rfl) a b ctx.forTarget.patterns]
  exact targetTruth_of_evaluate (evaluate_binary_just (by simp) (by simp) ha hb)

/-- The truth value of a target follows from those of its leaves. -/
theorem targetTruth_eq_verdict (ctx : Context) (imports : Imports) (e : Expression) :
    targetTruth ctx (e.resolveImports imports) = e.verdict imports (targetTruth ctx) := by
  induction e using Expression.leaves.induct with
  | case1 b => exact targetTruth_literal ctx b
  | case2 inner ih =>
    rw [Expression.verdict, ← ih]
    exact targetTruth_group ctx _
  | case3 operand ih =>
    rw [Expression.verdict, ← ih]
    exact targetTruth_not ctx _
  | case4 left right ihl ihr =>
    rw [Expression.verdict, ← ihl, ← ihr]
    exact targetTruth_and ctx _ _
  | case5 left right ihl ihr =>
    rw [Expression.verdict, ← ihl, ← ihr]
    exact targetTruth_eagerAnd ctx _ _
  | case6 left right ihl ihr =>
    rw [Expression.verdict, ← ihl, ← ihr]
    exact targetTruth_or ctx _ _
  | case7 left right ihl ihr =>
    rw [Expression.verdict, ← ihl, ← ihr]
    exact targetTruth_eagerOr ctx _ _
  | case8 op left right hand heagerAnd hor heagerOr =>
    rw [Expression.verdict] <;> assumption
  | case9 e hbool hgroup hnot hbinary =>
    rw [Expression.verdict] <;> assumption

end PolicyDecision
