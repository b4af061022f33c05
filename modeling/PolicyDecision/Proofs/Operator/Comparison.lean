import PolicyDecision.Operator.Apply
import PolicyDecision.Proofs.Json.SameValue

/-!
# PolicyDecision.Proofs.Operator.Comparison

Comparison of JSON integers.

Two words compare exactly. If one of the integers is no word, both are compared by their doubles,
which is exact unless two different integers have one double.

* `Comparison.apply_ofInt`: what the operators compare.
* `Comparison.isExact_iff`: the pairs of integers on which all operators are exact.
* `Comparison.exists_unique`: of `<`, `==` and `>` one holds.
* `BinaryOperator.elementOf_singleton`.
-/

namespace PolicyDecision

/-- The operators that compare two numbers. -/
inductive Comparison where
  | equals
  | notEquals
  | less
  | lessEquals
  | greater
  | greaterEquals
deriving DecidableEq

/-- An integer of a JSON document: a signed word, or an unsigned one. -/
def IsJsonInteger (n : Int) : Prop := -0x8000000000000000 ≤ n ∧ n < 0x10000000000000000

namespace Number

variable {m n : Int}

theorem ofInt_eq (h : IsJsonInteger n) : Number.ofInt n = .integer n h := dif_pos h

theorem int64?_ofInt (h : IsJsonInteger n) :
    (Number.ofInt n).int64? = if isWord n then some n else none := by
  have hword : isWord n = true ↔ n < 0x8000000000000000 := by
    rw [isWord, Bool.and_eq_true, decide_eq_true_iff, decide_eq_true_iff]
    exact ⟨And.right, fun hlt => ⟨h.1, hlt⟩⟩
  rw [ofInt_eq h]
  show (if n < 0x8000000000000000 then some n else none) = _
  simp only [hword]

theorem value?_toFloat_ofInt (h : IsJsonInteger n) :
    Double.value? (Number.ofInt n).toFloat = some (Double.nearest n : ℚ) := by
  have hbound : n.natAbs ≤ 2 ^ 64 := by
    have := h.1
    have := h.2
    omega
  rw [ofInt_eq h]
  exact Double.value?_ofInt hbound

end Number

namespace Comparison

def operator : Comparison → BinaryOperator
  | .equals => .equals
  | .notEquals => .notEquals
  | .less => .less
  | .lessEquals => .lessEquals
  | .greater => .greater
  | .greaterEquals => .greaterEquals

/-- The exact comparison. -/
def holds : Comparison → Int → Int → Bool
  | .equals, x, y => x == y
  | .notEquals, x, y => x != y
  | .less, x, y => x < y
  | .lessEquals, x, y => x ≤ y
  | .greater, x, y => y < x
  | .greaterEquals, x, y => y ≤ x

/-- The orders of its operands for which an operator holds. -/
def accepts : Comparison → Ordering → Bool
  | .equals, o => o == .eq
  | .notEquals, o => o != .eq
  | .less, o => o == .lt
  | .lessEquals, o => o != .gt
  | .greater, o => o == .gt
  | .greaterEquals, o => o != .lt

theorem accepts_compare (op : Comparison) (x y : Int) : op.accepts (compare x y) = op.holds x y := by
  rw [Bool.eq_iff_iff]
  cases op with
  | equals => rw [accepts, holds, beq_iff_eq, beq_iff_eq, compare_eq_iff_eq]
  | notEquals => rw [accepts, holds, bne_iff_ne, bne_iff_ne, Ne, Ne, compare_eq_iff_eq]
  | less => rw [accepts, holds, beq_iff_eq, compare_lt_iff_lt, decide_eq_true_iff]
  | lessEquals => rw [accepts, holds, bne_iff_ne, Ne, compare_gt_iff_gt, not_lt, decide_eq_true_iff]
  | greater => rw [accepts, holds, beq_iff_eq, compare_gt_iff_gt, decide_eq_true_iff]
  | greaterEquals =>
    rw [accepts, holds, bne_iff_ne, Ne, compare_lt_iff_lt, not_lt, decide_eq_true_iff]

/-- What is compared: the integers themselves where both are words, the nearest doubles otherwise. -/
def compared (m n : Int) : Int × Int :=
  if isWord m && isWord n then (m, n) else (Double.nearest m, Double.nearest n)

variable {m n : Int} {patterns : PatternDialect}

theorem sameValue_ofInt (hm : IsJsonInteger m) (hn : IsJsonInteger n) :
    (Number.ofInt m).sameValue (.ofInt n) = ((compared m n).1 == (compared m n).2) := by
  have hdoubles : ((Number.ofInt m).toFloat == (Number.ofInt n).toFloat) =
      (Double.nearest m == Double.nearest n) := by
    rw [Bool.eq_iff_iff, Double.beq_iff (Number.value?_toFloat_ofInt hm)
      (Number.value?_toFloat_ofInt hn), Int.cast_inj, beq_iff_eq]
  rw [Number.sameValue, Number.int64?_ofInt hm, Number.int64?_ofInt hn, compared]
  cases isWord m <;> cases isWord n <;> first | exact hdoubles | rfl

theorem compare?_ofInt (hm : IsJsonInteger m) (hn : IsJsonInteger n) :
    (Number.ofInt m).compare? (.ofInt n) = some (compare (compared m n).1 (compared m n).2) := by
  have hm' := Number.value?_toFloat_ofInt hm
  have hn' := Number.value?_toFloat_ofInt hn
  have hdoubles : (if (Number.ofInt m).toFloat < (Number.ofInt n).toFloat then some Ordering.lt
      else if (Number.ofInt m).toFloat == (Number.ofInt n).toFloat then some .eq
      else if (Number.ofInt m).toFloat > (Number.ofInt n).toFloat then some .gt else none) =
      some (compare (Double.nearest m) (Double.nearest n)) := by
    simp only [gt_iff_lt, Double.lt_iff hm' hn', Double.beq_iff hm' hn', Double.lt_iff hn' hm',
      Int.cast_lt, Int.cast_inj]
    rcases lt_trichotomy (Double.nearest m) (Double.nearest n) with h | h | h
    · rw [if_pos h, compare_lt_iff_lt.2 h]
    · rw [if_neg h.not_lt, if_pos h, compare_eq_iff_eq.2 h]
    · rw [if_neg h.not_gt, if_neg h.ne', if_pos h, compare_gt_iff_gt.2 h]
  rw [Number.compare?, Number.int64?_ofInt hm, Number.int64?_ofInt hn, compared]
  cases isWord m <;> cases isWord n <;> first | exact hdoubles | rfl

/-- Every operator gives the exact comparison of what is compared. -/
theorem apply_ofInt (op : Comparison) (hm : IsJsonInteger m) (hn : IsJsonInteger n) :
    op.operator.apply (.ofInt m) (.ofInt n) patterns =
      .ofBool (op.holds (compared m n).1 (compared m n).2) := by
  have hcompare (accept : Ordering → Bool) :
      BinaryOperator.compare accept (.ofInt m) (.ofInt n) =
        .ofBool (accept (compare (compared m n).1 (compared m n).2)) := by
    have hnumbers (f : Number → Number → Val) :
        BinaryOperator.onNumbers f (.ofInt m) (.ofInt n) = f (.ofInt m) (.ofInt n) := rfl
    rw [BinaryOperator.compare, hnumbers, compare?_ofInt hm hn]
  cases op with
  | equals => exact congrArg Val.ofBool (sameValue_ofInt hm hn)
  | notEquals => exact congrArg (fun b => Val.ofBool (!b)) (sameValue_ofInt hm hn)
  | less => exact (hcompare _).trans (congrArg Val.ofBool (accepts_compare .less _ _))
  | lessEquals => exact (hcompare _).trans (congrArg Val.ofBool (accepts_compare .lessEquals _ _))
  | greater => exact (hcompare _).trans (congrArg Val.ofBool (accepts_compare .greater _ _))
  | greaterEquals =>
    exact (hcompare _).trans (congrArg Val.ofBool (accepts_compare .greaterEquals _ _))

/-- Rounding keeps the order of two integers that it keeps apart. -/
theorem compare_nearest (h : Double.nearest m = Double.nearest n → m = n) :
    compare (Double.nearest m) (Double.nearest n) = compare m n := by
  rcases lt_trichotomy m n with hlt | heq | hgt
  · rw [compare_lt_iff_lt.2 hlt, compare_lt_iff_lt]
    exact (Double.nearest_mono hlt.le).lt_of_ne fun heq => hlt.ne (h heq)
  · rw [heq, compare_eq_iff_eq.2 rfl, compare_eq_iff_eq.2 rfl]
  · rw [compare_gt_iff_gt.2 hgt, compare_gt_iff_gt]
    exact (Double.nearest_mono hgt.le).lt_of_ne fun heq => hgt.ne' (h heq.symm)

/-- All operators are exact unless two different integers, not both words, have one double. -/
theorem isExact_iff (hm : IsJsonInteger m) (hn : IsJsonInteger n) :
    (∀ op : Comparison,
      op.operator.apply (.ofInt m) (.ofInt n) patterns = .ofBool (op.holds m n)) ↔
      (isWord m = true ∧ isWord n = true) ∨ (Double.nearest m = Double.nearest n → m = n) := by
  by_cases hwords : isWord m = true ∧ isWord n = true
  · refine ⟨fun _ => .inl hwords, fun _ op => ?_⟩
    rw [apply_ofInt op hm hn, compared, if_pos (by rw [hwords.1, hwords.2]; rfl)]
  · have hcompared : compared m n = (Double.nearest m, Double.nearest n) :=
      if_neg fun h => hwords (Bool.and_eq_true_iff.1 h)
    rw [or_iff_right hwords]
    constructor
    · intro h heq
      have hequals := (apply_ofInt .equals hm hn).symm.trans (h .equals)
      rw [hcompared] at hequals
      have hsame : (Double.nearest m == Double.nearest n) = (m == n) := by
        injection hequals with hjson
        injection hjson
      exact beq_iff_eq.1 (hsame.symm.trans (beq_iff_eq.2 heq))
    · intro h op
      rw [apply_ofInt op hm hn, hcompared, ← accepts_compare, compare_nearest h, accepts_compare]

/-- Of `<`, `==` and `>` one holds, and only one. -/
theorem exists_unique (hm : IsJsonInteger m) (hn : IsJsonInteger n) :
    ∃! op : Comparison, (op = .less ∨ op = .equals ∨ op = .greater) ∧
      op.operator.apply (.ofInt m) (.ofInt n) patterns = .ofBool true := by
  have happly (op : Comparison) : op.operator.apply (.ofInt m) (.ofInt n) patterns = .ofBool true ↔
      op.accepts (compare (compared m n).1 (compared m n).2) = true := by
    rw [apply_ofInt op hm hn, accepts_compare]
    exact ⟨fun h => by injection h with hjson; injection hjson, fun h => congrArg Val.ofBool h⟩
  simp only [happly]
  cases compare (compared m n).1 (compared m n).2 with
  | lt => exact ⟨.less, by decide, by rintro op ⟨rfl | rfl | rfl, h⟩ <;> first | rfl | cases h⟩
  | eq => exact ⟨.equals, by decide, by rintro op ⟨rfl | rfl | rfl, h⟩ <;> first | rfl | cases h⟩
  | gt => exact ⟨.greater, by decide, by rintro op ⟨rfl | rfl | rfl, h⟩ <;> first | rfl | cases h⟩

end Comparison

/-- Membership in an array of one element is equality with the element. -/
theorem BinaryOperator.elementOf_singleton (v w : Json) (patterns : PatternDialect) :
    BinaryOperator.elementOf.apply (.defined v) (.defined (.array [w])) patterns =
      BinaryOperator.equals.apply (.defined v) (.defined w) patterns := by
  show Val.ofBool (v.sameValue w || false) = _
  rw [Bool.or_false]
  rfl

/-- JSON values compare by value: the equality is reflexive, symmetric and blind to the order of
fields, it is transitive where no number has the double of two words, and integers compare exactly
unless two of them, not both words, have one double. -/
theorem comparesByValue {v w v' w' : Json} (hv : v.IsProper) (hw : w.IsProper) (hv' : v'.IsProper)
    (hw' : w'.IsProper) {S : Number → Prop} (hS : ∀ n, S n → n.IsFinite) {m n : Int}
    (hm : IsJsonInteger m) (hn : IsJsonInteger n) (patterns : PatternDialect) :
    v.sameValue v = true ∧
    v.sameValue w = w.sameValue v ∧
    (v.sortKeys = v'.sortKeys → w.sortKeys = w'.sortKeys → v.sameValue w = v'.sameValue w') ∧
    ((∀ a b c : Json, a.HasDistinctKeys → b.HasDistinctKeys → c.HasDistinctKeys →
      a.HasNumbersIn S → b.HasNumbersIn S → c.HasNumbersIn S →
      a.sameValue b = true → b.sameValue c = true → a.sameValue c = true) ↔
      ¬ Number.Confuses S) ∧
    ((∀ op : Comparison,
      op.operator.apply (.ofInt m) (.ofInt n) patterns = .ofBool (op.holds m n)) ↔
      (isWord m = true ∧ isWord n = true) ∨ (Double.nearest m = Double.nearest n → m = n)) ∧
    (∃! op : Comparison, (op = .less ∨ op = .equals ∨ op = .greater) ∧
      op.operator.apply (.ofInt m) (.ofInt n) patterns = .ofBool true) ∧
    BinaryOperator.elementOf.apply (.defined v) (.defined (.array [w])) patterns =
      BinaryOperator.equals.apply (.defined v) (.defined w) patterns :=
  ⟨Json.sameValue_refl hv, Json.sameValue_symm hv hw, Json.sameValue_congr hv hw hv' hw',
    Json.sameValue_transitive_iff hS, Comparison.isExact_iff hm hn, Comparison.exists_unique hm hn,
    BinaryOperator.elementOf_singleton v w patterns⟩

/-- Two orders of fields, a least unsigned number beside a small one, and a single number. -/
theorem comparesByValue_least :
    (Json.object [("level", .ofInt 1), ("active", .bool true)]).sameValue
      (.object [("active", .bool true), ("level", .ofInt 1)]) = true ∧
    (∀ op : Comparison, op.operator.apply (.ofInt (2 ^ 63)) (.ofInt 1) =
      .ofBool (op.holds (2 ^ 63) 1)) ∧
    ∀ a b c : Json, a.HasDistinctKeys → b.HasDistinctKeys → c.HasDistinctKeys →
      a.HasNumbersIn (· = .ofInt 1) → b.HasNumbersIn (· = .ofInt 1) →
      c.HasNumbersIn (· = .ofInt 1) →
      a.sameValue b = true → b.sameValue c = true → a.sameValue c = true := by
  have hlevel : (Json.ofInt 1).HasNumbersIn Number.IsFinite :=
    .of_child (fun n hn => by cases hn; trivial) fun k w hw => by cases k <;> cases hw
  have hactive : (Json.bool true).HasNumbersIn Number.IsFinite :=
    .of_child (fun n hn => by cases hn) fun k w hw => by cases k <;> cases hw
  have hproper : (Json.object [("level", .ofInt 1), ("active", .bool true)]).IsProper :=
    ⟨⟨by decide, trivial, trivial, trivial⟩, .object (by simp [hlevel, hactive])⟩
  have hproper' : (Json.object [("active", .bool true), ("level", .ofInt 1)]).IsProper :=
    ⟨⟨by decide, trivial, trivial, trivial⟩, .object (by simp [hlevel, hactive])⟩
  have hm : IsJsonInteger (2 ^ 63) := by unfold IsJsonInteger; omega
  have hn : IsJsonInteger 1 := by unfold IsJsonInteger; omega
  have hS : ∀ n : Number, n = .ofInt 1 → n.IsFinite := by rintro n rfl; trivial
  have hconfuses : ¬ Number.Confuses (· = .ofInt 1) := by
    rintro ⟨a, b, c, rfl, rfl, -, -, -, hne, -⟩
    exact hne rfl
  obtain ⟨hrefl, -, hcongr, htrans, hexact, -⟩ :=
    comparesByValue hproper' hproper' hproper hproper' hS hm hn .standard
  exact ⟨(hcongr rfl rfl).symm.trans hrefl, hexact.2 (.inr fun h => absurd h (by decide)),
    htrans.2 hconfuses⟩

/-- Two integers beyond the words have one double, and so have a double and two words. -/
theorem equals_confuses :
    BinaryOperator.equals.apply (.ofInt (2 ^ 63)) (.ofInt (2 ^ 63 + 1)) = .ofBool true ∧
    (Json.ofInt (2 ^ 53 + 1)).sameValue (.ofFloat (Float.ofInt (2 ^ 53))) = true ∧
    (Json.ofFloat (Float.ofInt (2 ^ 53))).sameValue (.ofInt (2 ^ 53)) = true ∧
    (Json.ofInt (2 ^ 53 + 1)).sameValue (.ofInt (2 ^ 53)) = false :=
  ⟨rfl, rfl, rfl, rfl⟩

end PolicyDecision
