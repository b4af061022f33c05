import PolicyDecision.Operator.Apply
import PolicyDecision.Proofs.Decimal.Rounding

/-!
# PolicyDecision.Proofs.Operator.Arithmetic

Arithmetic on words is exact.

Each operator gives the exact result as an integer where that is a word. It computes on doubles
where the exact result is no word, because it lies outside the range or is a fraction. There is one
exception: the remainder of the least word by `-1`, which is `0`, comes out as a double.

* `Arithmetic.result?`: the number that an operator stands for; none for a division by zero.
* `Arithmetic.apply_words`, `UnaryOperator.negate_word`.
-/

namespace PolicyDecision

/-- The operators that give a number for two numbers. -/
inductive Arithmetic where
  | add
  | subtract
  | multiply
  | divide
  | modulo
deriving DecidableEq

namespace Arithmetic

def operator : Arithmetic → BinaryOperator
  | .add => .plus
  | .subtract => .minus
  | .multiply => .multiply
  | .divide => .divide
  | .modulo => .modulo

/-- Division and remainder, which have no result for the divisor zero. -/
def Divides (op : Arithmetic) : Prop := op = .divide ∨ op = .modulo

/-- The exact result: a fraction for the division, and for the remainder that of the truncated
quotient. -/
def result? (op : Arithmetic) (x y : Int) : Option ℚ :=
  match op with
  | .add => some (x + y)
  | .subtract => some (x - y)
  | .multiply => some (x * y)
  | .divide => if y = 0 then none else some (x / y)
  | .modulo => if y = 0 then none else some (x.tmod y)

def onFloats : Arithmetic → Float → Float → Float
  | .add => (· + ·)
  | .subtract => (· - ·)
  | .multiply => (· * ·)
  | .divide => (· / ·)
  | .modulo => floatRemainder

end Arithmetic

section Words

variable (x y : Int64)

theorem isWord_iff {n : Int} : isWord n = true ↔ ∃ r : Int64, r.toInt = n := by
  rw [isWord, Bool.and_eq_true, decide_eq_true_iff, decide_eq_true_iff]
  constructor
  · rintro ⟨hlow, hhigh⟩
    exact ⟨Int64.ofInt n, Int64.toInt_ofInt_of_le hlow hhigh⟩
  · rintro ⟨r, rfl⟩
    exact ⟨r.le_toInt, r.toInt_lt⟩

theorem Number.ofInt_word : ∃ held, Number.ofInt x.toInt = .integer x.toInt held := by
  have hlow := x.le_toInt
  have hhigh := x.toInt_lt
  exact ⟨by omega, dif_pos (by omega)⟩

theorem Number.int64?_word : (Number.ofInt x.toInt).int64? = some x.toInt := by
  obtain ⟨held, h⟩ := Number.ofInt_word x
  have hhigh := x.toInt_lt
  rw [h, Number.int64?, if_pos (by omega)]

theorem Number.toFloat_word : (Number.ofInt x.toInt).toFloat = Float.ofInt x.toInt := by
  obtain ⟨held, h⟩ := Number.ofInt_word x
  rw [h, Number.toFloat]

/-- A word other than zero is no zero as a double either. -/
theorem Number.isZero_word : (Number.ofInt x.toInt).isZero = true ↔ x = 0 := by
  have hword : x.toInt.natAbs ≤ 2 ^ 64 := by
    have hlow := x.le_toInt
    have hhigh := x.toInt_lt
    omega
  rw [Number.isZero, Number.toFloat_word,
    Double.beq_iff (Double.value?_ofInt hword) (rfl : Double.value? 0 = some 0), Int.cast_eq_zero,
    Double.nearest_eq_zero_iff]
  exact (Int64.toInt_inj : x.toInt = (0 : Int64).toInt ↔ x = 0)

theorem Number.combine_words (exact : Int → Int → Int) (rounded : Float → Float → Float) :
    Number.combine exact rounded (.ofInt x.toInt) (.ofInt y.toInt) =
      if isWord (exact x.toInt y.toInt) then .ofInt (exact x.toInt y.toInt)
      else .ofFloat (rounded (Float.ofInt x.toInt) (Float.ofInt y.toInt)) := by
  simp only [Number.combine, Number.int64?_word, Number.toFloat_word]

theorem Number.divide_words :
    Number.divide (.ofInt x.toInt) (.ofInt y.toInt) =
      if y = 0 then .fault .divisionByZero
      else if x.toInt.tmod y.toInt = 0 ∧ isWord (x.toInt.tdiv y.toInt) = true then
        .ofInt (x.toInt.tdiv y.toInt)
      else .ofFloat (Float.ofInt x.toInt / Float.ofInt y.toInt) := by
  simp only [Number.divide, Number.isZero_word, Number.int64?_word, Number.toFloat_word,
    Bool.and_eq_true, beq_iff_eq]

theorem Number.modulo_words :
    Number.modulo (.ofInt x.toInt) (.ofInt y.toInt) =
      if y = 0 then .fault .divisionByZero
      else if isWord (x.toInt.tdiv y.toInt) then .ofInt (x.toInt.tmod y.toInt)
      else .ofFloat (floatRemainder (Float.ofInt x.toInt) (Float.ofInt y.toInt)) := by
  simp only [Number.modulo, Number.isZero_word, Number.int64?_word, Number.toFloat_word]

end Words

/-! ## Quotients -/

theorem divides_exactly_iff {x y r : Int} (hy : y ≠ 0) :
    (x : ℚ) / y = r ↔ x.tmod y = 0 ∧ x.tdiv y = r := by
  have hy' : (y : ℚ) ≠ 0 := by exact_mod_cast hy
  have hsplit := Int.tmod_add_mul_tdiv x y
  rw [div_eq_iff hy']
  constructor
  · intro h
    obtain rfl : x = r * y := by exact_mod_cast h
    exact ⟨Int.mul_tmod_left _ _, Int.mul_tdiv_cancel _ hy⟩
  · rintro ⟨hrest, rfl⟩
    rw [hrest, zero_add, mul_comm] at hsplit
    exact_mod_cast hsplit.symm

/-- The remainder is less than the divisor. -/
theorem isWord_tmod (x : Int) {y : Int64} (hy : y ≠ 0) : isWord (x.tmod y.toInt) = true := by
  have hy' : y.toInt ≠ 0 := fun h => hy (Int64.toInt_inj.1 h)
  have hlow := y.le_toInt
  have hhigh := y.toInt_lt
  have hrest := Int.natAbs_tmod x y.toInt
  have hlt := Nat.mod_lt x.natAbs (Int.natAbs_pos.2 hy')
  rw [isWord, Bool.and_eq_true, decide_eq_true_iff, decide_eq_true_iff]
  omega

/-- Only one quotient of two words is no word. -/
theorem isWord_tdiv_iff {x y : Int64} (hy : y ≠ 0) :
    isWord (x.toInt.tdiv y.toInt) = true ↔ ¬ (x = Int64.minValue ∧ y = -1) := by
  have hlow := x.le_toInt
  have hhigh := x.toInt_lt
  have hleast : x = Int64.minValue ↔ x.toInt = -2 ^ 63 :=
    (Int64.toInt_inj : x.toInt = Int64.minValue.toInt ↔ _).symm
  have hminus : y = -1 ↔ y.toInt = -1 := (Int64.toInt_inj : y.toInt = (-1 : Int64).toInt ↔ _).symm
  have hne : y.toInt ≠ 0 := fun h => hy (Int64.toInt_inj.1 h)
  rw [isWord, Bool.and_eq_true, decide_eq_true_iff, decide_eq_true_iff, hleast, hminus]
  by_cases hone : y.toInt = 1
  · rw [hone, Int.tdiv_one]
    omega
  by_cases hneg : y.toInt = -1
  · rw [hneg, Int.tdiv_neg, Int.tdiv_one]
    omega
  · have hhalf : (x.toInt.tdiv y.toInt).natAbs ≤ x.toInt.natAbs / 2 := by
      rw [Int.natAbs_tdiv]
      exact Nat.div_le_div_left (by omega) (by decide)
    omega

namespace Arithmetic

/-- The remainder of the least word by `-1`: the quotient is no word, the remainder is zero. -/
def IsLeastRemainder (op : Arithmetic) (x y : Int64) : Prop :=
  op = .modulo ∧ x = Int64.minValue ∧ y = -1

instance (op : Arithmetic) (x y : Int64) : Decidable (op.IsLeastRemainder x y) :=
  inferInstanceAs (Decidable (_ ∧ _))

variable {patterns : PatternDialect}

/-- Where the exact result is a word and the operator gives it. -/
theorem apply_of_result? {op : Arithmetic} {x y r : Int64}
    (h : op.result? x.toInt y.toInt = some (r.toInt : ℚ)) (hleast : ¬ op.IsLeastRemainder x y) :
    op.operator.apply (.ofInt x.toInt) (.ofInt y.toInt) patterns = .ofInt r.toInt := by
  have hcombine (exact : Int → Int → Int) (rounded : Float → Float → Float)
      (h : exact x.toInt y.toInt = r.toInt) :
      Number.combine exact rounded (.ofInt x.toInt) (.ofInt y.toInt) = .ofInt r.toInt := by
    rw [Number.combine_words, h, if_pos (isWord_iff.2 ⟨r, rfl⟩)]
  cases op with
  | add => exact hcombine _ _ (by exact_mod_cast Option.some_inj.1 h)
  | subtract => exact hcombine _ _ (by exact_mod_cast Option.some_inj.1 h)
  | multiply => exact hcombine _ _ (by exact_mod_cast Option.some_inj.1 h)
  | divide =>
    have hy : y.toInt ≠ 0 := fun hy => by rw [result?, if_pos hy] at h; cases h
    rw [result?, if_neg hy, Option.some_inj, divides_exactly_iff hy] at h
    refine (Number.divide_words x y).trans ?_
    rw [if_neg fun h0 => hy (congrArg Int64.toInt h0), if_pos ⟨h.1, isWord_iff.2 ⟨r, h.2.symm⟩⟩, h.2]
  | modulo =>
    have hy : y.toInt ≠ 0 := fun hy => by rw [result?, if_pos hy] at h; cases h
    have hy' : y ≠ 0 := fun h0 => hy (congrArg Int64.toInt h0)
    rw [result?, if_neg hy, Option.some_inj, Int.cast_inj] at h
    refine (Number.modulo_words x y).trans ?_
    rw [if_neg hy', if_pos ((isWord_tdiv_iff hy').2 fun hpair => hleast ⟨rfl, hpair⟩), h]

/-- Where the exact result is no word, and for the least remainder. -/
theorem apply_of_rounds {op : Arithmetic} {x y : Int64} (hdivisor : ¬ (op.Divides ∧ y = 0))
    (h : (∀ r : Int64, op.result? x.toInt y.toInt ≠ some (r.toInt : ℚ)) ∨ op.IsLeastRemainder x y) :
    op.operator.apply (.ofInt x.toInt) (.ofInt y.toInt) patterns =
      .ofFloat (op.onFloats (Float.ofInt x.toInt) (Float.ofInt y.toInt)) := by
  have hcombine (exact : Int → Int → Int) (rounded : Float → Float → Float)
      (h : ∀ r : Int64, exact x.toInt y.toInt ≠ r.toInt) :
      Number.combine exact rounded (.ofInt x.toInt) (.ofInt y.toInt) =
        .ofFloat (rounded (Float.ofInt x.toInt) (Float.ofInt y.toInt)) := by
    rw [Number.combine_words, if_neg]
    rintro hword
    obtain ⟨r, hr⟩ := isWord_iff.1 hword
    exact h r hr.symm
  have hexact (hop : op ≠ .modulo) (r : Int64) : op.result? x.toInt y.toInt ≠ some (r.toInt : ℚ) :=
    h.elim (· r) fun hleast => absurd hleast.1 hop
  cases op with
  | add =>
    exact hcombine _ _ fun r hr => hexact nofun r (congrArg some (by exact_mod_cast hr))
  | subtract => exact hcombine _ _ fun r hr => hexact nofun r (congrArg some (by exact_mod_cast hr))
  | multiply => exact hcombine _ _ fun r hr => hexact nofun r (congrArg some (by exact_mod_cast hr))
  | divide =>
    have hy : y ≠ 0 := fun h0 => hdivisor ⟨.inl rfl, h0⟩
    have hy' : y.toInt ≠ 0 := fun h0 => hy (Int64.toInt_inj.1 h0)
    refine (Number.divide_words x y).trans ?_
    rw [if_neg hy, if_neg]
    · rfl
    rintro ⟨hrest, hword⟩
    obtain ⟨r, hr⟩ := isWord_iff.1 hword
    refine hexact nofun r ?_
    rw [result?, if_neg hy', Option.some_inj]
    exact (divides_exactly_iff hy').2 ⟨hrest, hr.symm⟩
  | modulo =>
    have hy : y ≠ 0 := fun h0 => hdivisor ⟨.inr rfl, h0⟩
    have hy' : y.toInt ≠ 0 := fun h0 => hy (Int64.toInt_inj.1 h0)
    obtain ⟨r, hr⟩ := isWord_iff.1 (isWord_tmod x.toInt hy)
    have hexact : result? .modulo x.toInt y.toInt = some (r.toInt : ℚ) := by
      rw [result?, if_neg hy', hr]
    obtain ⟨-, hpair⟩ := h.resolve_left fun hnone => hnone r hexact
    refine (Number.modulo_words x y).trans ?_
    rw [if_neg hy, if_neg fun hword => (isWord_tdiv_iff hy).1 hword hpair]
    rfl

theorem apply_of_divisor_zero {op : Arithmetic} {x : Int64} (h : op.Divides) :
    op.operator.apply (.ofInt x.toInt) (.ofInt (0 : Int64).toInt) patterns =
      .fault .divisionByZero := by
  rcases h with rfl | rfl
  · refine (Number.divide_words x 0).trans (if_pos rfl)
  · refine (Number.modulo_words x 0).trans (if_pos rfl)

end Arithmetic

/-! ## Words -/

theorem notFinite_ne_divisionByZero (t : String) :
    "Arithmetic result is not a finite number: " ++ t ≠ "Division by zero" := by
  intro h
  have hhead : ("Arithmetic result is not a finite number: " ++ t).toList.head? =
      "Division by zero".toList.head? := by rw [h]
  simp at hhead

theorem Val.errorMessage?_ofFloat (f : Float) :
    (Val.ofFloat f).errorMessage? ≠ some "Division by zero" := by
  rw [Val.ofFloat]
  cases f.isFinite with
  | true => exact (Option.some_ne_none _).symm
  | false => exact fun h => notFinite_ne_divisionByZero _ (Option.some_inj.1 h)

theorem Val.ofFloat_ne_ofInt (f : Float) (x : Int64) : Val.ofFloat f ≠ .ofInt x.toInt := by
  obtain ⟨held, hx⟩ := Number.ofInt_word x
  rw [Val.ofInt, Json.ofInt, hx, Val.ofFloat]
  cases f.isFinite with
  | true => simp [Json.ofFloat]
  | false => simp [Val.fault]

theorem UnaryOperator.negate_word (x : Int64) :
    UnaryOperator.negate.apply (.ofInt x.toInt) =
      if x = Int64.minValue then .ofFloat (-Float.ofInt x.toInt) else .ofInt (-x.toInt) := by
  have hlow := x.le_toInt
  have hhigh := x.toInt_lt
  have hleast : isWord (-x.toInt) = true ↔ ¬ x = Int64.minValue := by
    rw [← Int64.toInt_inj, isWord, Bool.and_eq_true, decide_eq_true_iff, decide_eq_true_iff]
    show _ ↔ ¬ x.toInt = -2 ^ 63
    omega
  show (Number.ofInt x.toInt).negate = _
  rw [Number.negate, Number.int64?_word, Number.toFloat_word]
  simp only [hleast, ite_not]

namespace Arithmetic

/-- On two words an operator gives the exact result as an integer where that is a word, it fails
for the divisor zero only, and everything else is computed on doubles. The least remainder is the
one result that is a word and is computed on doubles nevertheless. -/
theorem apply_words (op : Arithmetic) (x y : Int64) (patterns : PatternDialect) :
    (∀ r : Int64, op.result? x.toInt y.toInt = some (r.toInt : ℚ) → ¬ op.IsLeastRemainder x y →
      op.operator.apply (.ofInt x.toInt) (.ofInt y.toInt) patterns = .ofInt r.toInt) ∧
    ((op.operator.apply (.ofInt x.toInt) (.ofInt y.toInt) patterns).errorMessage? =
      some "Division by zero" ↔ op.Divides ∧ y = 0) ∧
    (¬ (op.Divides ∧ y = 0) →
      (∀ r : Int64, op.result? x.toInt y.toInt ≠ some (r.toInt : ℚ)) ∨ op.IsLeastRemainder x y →
      op.operator.apply (.ofInt x.toInt) (.ofInt y.toInt) patterns =
        .ofFloat (op.onFloats (Float.ofInt x.toInt) (Float.ofInt y.toInt))) ∧
    UnaryOperator.negate.apply (.ofInt x.toInt) =
      if x = Int64.minValue then .ofFloat (-Float.ofInt x.toInt) else .ofInt (-x.toInt) := by
  refine ⟨fun r => apply_of_result?, ⟨fun hmessage => ?_, ?_⟩, apply_of_rounds,
    UnaryOperator.negate_word x⟩
  · by_contra hdivisor
    by_cases hexact : ∃ r : Int64, op.result? x.toInt y.toInt = some (r.toInt : ℚ) ∧
        ¬ op.IsLeastRemainder x y
    · obtain ⟨r, hr, hleast⟩ := hexact
      rw [apply_of_result? hr hleast] at hmessage
      cases hmessage
    · rw [apply_of_rounds hdivisor] at hmessage
      · exact Val.errorMessage?_ofFloat _ hmessage
      · by_contra hrounds
        rw [not_or, not_forall] at hrounds
        obtain ⟨⟨r, hr⟩, hleast⟩ := hrounds
        exact hexact ⟨r, not_not.1 hr, hleast⟩
  · rintro ⟨hdivides, rfl⟩
    rw [apply_of_divisor_zero hdivides]
    rfl

theorem apply_words_quotients :
    BinaryOperator.modulo.apply (.ofInt (-7)) (.ofInt 3) = .ofInt (-1) ∧
    BinaryOperator.divide.apply (.ofInt 7) (.ofInt 2) =
      .ofFloat (Float.ofInt 7 / Float.ofInt 2) := by
  refine ⟨(apply_words .modulo (-7) 3 .standard).1 (-1) ?_ ?_,
    (apply_words .divide 7 2 .standard).2.2.1 ?_ (.inl ?_)⟩
  · rfl
  · decide
  · exact fun h => absurd h.2 (by decide)
  · intro r hr
    have hquotient := (divides_exactly_iff (by decide)).1 (Option.some_inj.1 hr)
    exact absurd hquotient.1 (by decide)

/-- The least remainder is zero, and comes out as a double. -/
theorem modulo_least_ne :
    result? .modulo Int64.minValue.toInt (-1 : Int64).toInt = some ((0 : Int64).toInt : ℚ) ∧
    BinaryOperator.modulo.apply (.ofInt Int64.minValue.toInt) (.ofInt (-1 : Int64).toInt) ≠
      .ofInt (0 : Int64).toInt := by
  refine ⟨rfl, fun h => ?_⟩
  have hrounds := @apply_of_rounds .standard .modulo Int64.minValue (-1)
    (fun h => absurd h.2 (by decide)) (.inr (by decide))
  exact Val.ofFloat_ne_ofInt _ 0 (hrounds.symm.trans h)

end Arithmetic
end PolicyDecision
