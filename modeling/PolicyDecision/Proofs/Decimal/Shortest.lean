import Mathlib.Algebra.Order.Field.Power
import Mathlib.Data.List.TakeWhile
import Mathlib.Data.Nat.Cast.Field
import Mathlib.Data.Rat.Cast.Order
import Mathlib.Tactic.FieldSimp
import Mathlib.Tactic.Linarith
import Mathlib.Tactic.NormNum
import Mathlib.Tactic.Positivity
import Mathlib.Tactic.Ring
import PolicyDecision.Decimal.Shortest

/-!
# PolicyDecision.Proofs.Decimal.Shortest

The shortest digits of a double determine the double.

* `Interval.Contains`: the numbers that round to a double.
* `exists_shortest_eq`: the digits denote a number that rounds to the double; 17 digits are always enough.
* `Binary.eq_of_contains`: no number rounds to two doubles.
* `eq_of_shortest_value`: so doubles whose digits denote the same number are the same.
-/

namespace PolicyDecision
namespace Decimal

/-- Mantissa and exponent as they are encoded: the mantissa has 53 bits unless the exponent is least. -/
structure Binary.IsCanonical (b : Binary) : Prop where
  mantissa_lt : b.mantissa < 2 ^ 53
  least : -1074 ≤ b.exponent
  normal : -1074 < b.exponent → 2 ^ 52 ≤ b.mantissa
  tight_iff : b.tight = true ↔ b.mantissa = 2 ^ 52 ∧ -1074 < b.exponent

theorem Binary.isCanonical_ofBits (bits : UInt64) : (Binary.ofBits bits).IsCanonical := by
  have hfraction : bits.toNat % 0x10000000000000 < 0x10000000000000 := Nat.mod_lt _ (by decide)
  unfold Binary.ofBits
  dsimp only
  split
  · constructor <;> dsimp only
    · omega
    · omega
    · intro h
      omega
    · simp
  · rename_i hbiased
    constructor <;> dsimp only
    · omega
    · omega
    · intro _
      omega
    · simp only [Bool.and_eq_true, beq_iff_eq, decide_eq_true_eq]
      omega

theorem Binary.negative_ofBits (bits : UInt64) :
    (Binary.ofBits bits).negative = (bits.toNat / 0x8000000000000000 % 2 == 1) := by
  unfold Binary.ofBits
  dsimp only
  split <;> rfl

theorem Binary.ofBits_injective {x y : UInt64}
    (hnegative : (Binary.ofBits x).negative = (Binary.ofBits y).negative)
    (hmantissa : (Binary.ofBits x).mantissa = (Binary.ofBits y).mantissa)
    (hexponent : (Binary.ofBits x).exponent = (Binary.ofBits y).exponent) : x = y := by
  have hx := x.toNat_lt
  have hy := y.toNat_lt
  rw [Binary.negative_ofBits, Binary.negative_ofBits, Bool.eq_iff_iff, beq_iff_eq,
    beq_iff_eq] at hnegative
  unfold Binary.ofBits at hmantissa hexponent
  dsimp only at hmantissa hexponent
  refine UInt64.toNat_inj.1 ?_
  by_cases hbx : x.toNat / 0x10000000000000 % 0x800 = 0 <;>
    by_cases hby : y.toNat / 0x10000000000000 % 0x800 = 0
  · rw [if_pos hbx, if_pos hby] at hmantissa hexponent
    dsimp only at hmantissa hexponent
    omega
  · rw [if_pos hbx, if_neg hby] at hmantissa hexponent
    dsimp only at hmantissa hexponent
    omega
  · rw [if_neg hbx, if_pos hby] at hmantissa hexponent
    dsimp only at hmantissa hexponent
    omega
  · rw [if_neg hbx, if_neg hby] at hmantissa hexponent
    dsimp only at hmantissa hexponent
    omega

/-! ## Grids -/

theorem scaled_eq_pow (a b : Nat) (k : Int) :
    scaled a b k = if k ≥ 0 then (a * 10 ^ k.toNat, b) else (a, b * 10 ^ (-k).toNat) := rfl

theorem scaled_den_pos {a b : Nat} {k : Int} (hb : 0 < b) : 0 < (scaled a b k).2 := by
  rw [scaled_eq_pow]
  split
  · exact hb
  · positivity

theorem scaled_eq {a b : Nat} (hb : 0 < b) (k : Int) :
    ((scaled a b k).1 : ℚ) / (scaled a b k).2 = (a : ℚ) / b * 10 ^ k := by
  have hb' : (b : ℚ) ≠ 0 := by positivity
  rw [scaled_eq_pow]
  split
  · rename_i h
    obtain ⟨n, rfl⟩ := Int.eq_ofNat_of_zero_le h
    simp only [Int.toNat_natCast, Nat.cast_mul, Nat.cast_pow, Nat.cast_ofNat, zpow_natCast]
    ring
  · rename_i h
    obtain ⟨n, hn⟩ := Int.eq_ofNat_of_zero_le (show 0 ≤ -k by omega)
    obtain rfl : k = -(n : Int) := by omega
    simp only [neg_neg, Int.toNat_natCast, Nat.cast_mul, Nat.cast_pow, Nat.cast_ofNat, zpow_neg,
      zpow_natCast]
    field_simp

/-- The number rounds to the double whose interval it is. -/
def Interval.Contains (i : Interval) (x : ℚ) : Prop :=
  if i.closed then (i.low : ℚ) ≤ x * i.den ∧ x * i.den ≤ i.high
  else (i.low : ℚ) < x * i.den ∧ x * i.den < i.high

theorem Interval.contains_of_lt {i : Interval} {x : ℚ} (hlow : (i.low : ℚ) < x * i.den)
    (hhigh : x * i.den < i.high) : i.Contains x := by
  unfold Interval.Contains
  split
  · exact ⟨hlow.le, hhigh.le⟩
  · exact ⟨hlow, hhigh⟩

theorem Interval.holds_iff (i : Interval) (count : Nat) (k : Int) :
    i.holds count k = true ↔ i.Contains (count * 10 ^ k) := by
  have hpos : (0 : ℚ) < (scaled count 1 k).2 := by
    exact_mod_cast scaled_den_pos (Nat.one_pos)
  have heq : (count : ℚ) * 10 ^ k * i.den =
      (scaled count 1 k).1 * i.den / (scaled count 1 k).2 := by
    have h := scaled_eq (a := count) Nat.one_pos k
    rw [Nat.cast_one, div_one] at h
    rw [← h]
    ring
  unfold Interval.holds Interval.Contains
  rw [heq]
  dsimp only
  split
  · rw [Bool.and_eq_true, decide_eq_true_iff, decide_eq_true_iff, le_div_iff₀ hpos, div_le_iff₀ hpos]
    norm_cast
  · rw [Bool.and_eq_true, decide_eq_true_iff, decide_eq_true_iff, lt_div_iff₀ hpos, div_lt_iff₀ hpos]
    norm_cast

theorem Interval.neighbour?_sound {i : Interval} {k : Int} {count : Nat}
    (h : i.neighbour? k = some count) : count ≠ 0 ∧ i.Contains (count * 10 ^ k) := by
  rw [← Interval.holds_iff]
  unfold Interval.neighbour? at h
  dsimp only at h
  split at h
  · rename_i hfloor _
    rw [Bool.and_eq_true, bne_iff_ne] at hfloor
    cases h
    exact ⟨hfloor.2, hfloor.1⟩
  · rename_i hnext
    cases h
    exact ⟨Nat.succ_ne_zero _, hnext⟩
  · cases h
  · rename_i hfloor hnext
    rw [Bool.and_eq_true, bne_iff_ne] at hfloor
    split at h
    · cases h
      exact ⟨hfloor.2, hfloor.1⟩
    · cases h
      exact ⟨Nat.succ_ne_zero _, hnext⟩

/-! ## The search -/

theorem Interval.search_sound {i : Interval} {first : Int} {fuel n : Nat} {d : Digits}
    (h : i.search first fuel n = some d) :
    ∃ (count : Nat) (k : Int), i.neighbour? k = some count ∧ d = ofGrid count k := by
  induction fuel generalizing n with
  | zero => cases h
  | succ fuel ih =>
    rw [Interval.search] at h
    split at h
    · rename_i count hcount
      cases h
      exact ⟨count, _, hcount, rfl⟩
    · exact ih h

theorem Interval.isSome_search {i : Interval} {first : Int} {fuel n m : Nat} (hn : n ≤ m)
    (hm : m < n + fuel) (h : (i.neighbour? (first - m + 1)).isSome = true) :
    (i.search first fuel n).isSome = true := by
  induction fuel generalizing n with
  | zero => omega
  | succ fuel ih =>
    rw [Interval.search]
    split
    · rfl
    · rename_i hnone
      refine ih ?_ (by omega)
      rcases Nat.eq_or_lt_of_le hn with rfl | hlt
      · rw [hnone] at h
        cases h
      · exact hlt

/-- A double stands between its two neighbours on a grid. -/
theorem Interval.between_neighbours {i : Interval} (hden : 0 < i.den) (k : Int) :
    let (a, b) := scaled i.value i.den (-k)
    ((a / b : Nat) : ℚ) * (10 ^ k * i.den) ≤ i.value ∧
      (i.value : ℚ) < ((a / b + 1 : Nat) : ℚ) * (10 ^ k * i.den) := by
  have hden' : (0 : ℚ) < i.den := by exact_mod_cast hden
  have hstep : (0 : ℚ) < (10 : ℚ) ^ k * i.den := by positivity
  have hb : 0 < (scaled i.value i.den (-k)).2 := scaled_den_pos hden
  have hb' : (0 : ℚ) < (scaled i.value i.den (-k)).2 := by exact_mod_cast hb
  have heq := scaled_eq (a := i.value) hden (-k)
  rw [zpow_neg, ← div_eq_mul_inv, div_div, mul_comm] at heq
  generalize scaled i.value i.den (-k) = ab at hb hb' heq ⊢
  obtain ⟨a, b⟩ := ab
  dsimp only at hb hb' heq ⊢
  have hvalue : (a : ℚ) * ((10 : ℚ) ^ k * i.den) = i.value * b := by
    field_simp at heq
    linarith
  generalize (10 : ℚ) ^ k * i.den = s at hstep hvalue
  constructor
  · have h : ((a / b : Nat) : ℚ) * b ≤ a := by exact_mod_cast Nat.div_mul_le_self a b
    refine le_of_mul_le_mul_right ?_ hb'
    calc ((a / b : Nat) : ℚ) * s * b = ((a / b : Nat) : ℚ) * b * s := by ring
      _ ≤ a * s := mul_le_mul_of_nonneg_right h hstep.le
      _ = i.value * b := hvalue
  · have h : (a : ℚ) < ((a / b + 1 : Nat) : ℚ) * b := by
      exact_mod_cast Nat.lt_mul_of_div_lt (Nat.lt_succ_self (a / b)) hb
    refine lt_of_mul_lt_mul_right ?_ hb'.le
    calc (i.value : ℚ) * b = a * s := hvalue.symm
      _ < ((a / b + 1 : Nat) : ℚ) * b * s := mul_lt_mul_of_pos_right h hstep
      _ = ((a / b + 1 : Nat) : ℚ) * s * b := by ring

/-- The search on a grid takes a neighbour that lies in the interval. -/
theorem Interval.isSome_neighbour?_of_holds {i : Interval} {k : Int} :
    let (a, b) := scaled i.value i.den (-k)
    a / b ≠ 0 → i.holds (a / b) k = true ∨ i.holds (a / b + 1) k = true →
      (i.neighbour? k).isSome = true := by
  unfold Interval.neighbour?
  generalize scaled i.value i.den (-k) = ab
  obtain ⟨a, b⟩ := ab
  dsimp only
  intro hzero hor
  rw [bne_iff_ne.2 hzero, Bool.and_true]
  rcases hor with h | h
  · rw [h]
    cases i.holds (a / b + 1) k with
    | false => rfl
    | true =>
      dsimp only
      split <;> rfl
  · rw [h]
    cases i.holds (a / b) k with
    | false => rfl
    | true =>
      dsimp only
      split <;> rfl

/-- One of the neighbours of a double on a grid finer than the interval lies in the interval. -/
theorem Interval.isSome_neighbour? {i : Interval} {k : Int} (hden : 0 < i.den)
    (hlow : i.low < i.value) (hhigh : i.value < i.high)
    (hgrid : (10 : ℚ) ^ k * i.den ≤ i.value)
    (hwide : (10 : ℚ) ^ k * i.den < (i.high : ℚ) - i.low) : (i.neighbour? k).isSome = true := by
  have hbetween := Interval.between_neighbours hden k
  have hfound := Interval.isSome_neighbour?_of_holds (i := i) (k := k)
  generalize scaled i.value i.den (-k) = ab at hbetween hfound
  obtain ⟨a, b⟩ := ab
  obtain ⟨hfloor, hnext⟩ := hbetween
  generalize hstep : (10 : ℚ) ^ k * i.den = s at hfloor hnext hgrid hwide
  have hcast (n : Nat) : (n : ℚ) * 10 ^ k * i.den = n * s := by rw [mul_assoc, hstep]
  refine hfound ?_ ?_
  · intro hzero
    rw [hzero, Nat.zero_add, Nat.cast_one, one_mul] at hnext
    exact absurd hnext (not_lt.2 hgrid)
  · -- the two neighbours are less than the width of the interval apart, with the double between them
    rw [Interval.holds_iff, Interval.holds_iff]
    have hlow' : (i.low : ℚ) < i.value := by exact_mod_cast hlow
    have hhigh' : (i.value : ℚ) < i.high := by exact_mod_cast hhigh
    by_cases h : (i.low : ℚ) < ((a / b : Nat) : ℚ) * s
    · refine .inl (Interval.contains_of_lt ?_ ?_) <;> rw [hcast]
      · exact h
      · exact hfloor.trans_lt hhigh'
    · refine .inr (Interval.contains_of_lt ?_ ?_) <;> rw [hcast]
      · exact hlow'.trans hnext
      · push_cast
        linarith

/-! ## The interval of a double -/

theorem two_pow_ratio (e : Int) :
    ((2 ^ (e - 2).toNat : Nat) : ℚ) = (2 : ℚ) ^ (e - 2) * (2 ^ (2 - e).toNat : Nat) := by
  push_cast
  rcases le_total 2 e with h | h
  · obtain ⟨n, hn⟩ := Int.eq_ofNat_of_zero_le (show 0 ≤ e - 2 by omega)
    rw [show (2 - e).toNat = 0 by omega, hn]
    simp
  · obtain ⟨n, hn⟩ := Int.eq_ofNat_of_zero_le (show 0 ≤ 2 - e by omega)
    rw [show (e - 2).toNat = 0 by omega, show e - 2 = -(n : Int) by omega, hn]
    simp

/-- The lower end of the interval, in quarters of the last place. -/
def Binary.lowQuarters (b : Binary) : Nat :=
  if b.tight then 4 * b.mantissa - 1 else 4 * b.mantissa - 2

theorem Binary.interval_eq (b : Binary) :
    b.interval = ⟨b.lowQuarters * 2 ^ (b.exponent - 2).toNat,
      4 * b.mantissa * 2 ^ (b.exponent - 2).toNat,
      (4 * b.mantissa + 2) * 2 ^ (b.exponent - 2).toNat, 2 ^ (2 - b.exponent).toNat,
      b.mantissa % 2 == 0⟩ := by
  simp only [interval, lowQuarters, Nat.shiftLeft_eq, Nat.one_mul]

theorem Binary.contains_interval_iff {b : Binary} {x : ℚ} :
    b.interval.Contains x ↔
      if b.mantissa % 2 = 0 then
        b.lowQuarters * (2 : ℚ) ^ (b.exponent - 2) ≤ x ∧
          x ≤ (4 * b.mantissa + 2 : Nat) * (2 : ℚ) ^ (b.exponent - 2)
      else
        b.lowQuarters * (2 : ℚ) ^ (b.exponent - 2) < x ∧
          x < (4 * b.mantissa + 2 : Nat) * (2 : ℚ) ^ (b.exponent - 2) := by
  have hden : (0 : ℚ) < (2 ^ (2 - b.exponent).toNat : Nat) := by positivity
  have hend (n : Nat) : ((n * 2 ^ (b.exponent - 2).toNat : Nat) : ℚ) =
      n * (2 : ℚ) ^ (b.exponent - 2) * (2 ^ (2 - b.exponent).toNat : Nat) := by
    rw [Nat.cast_mul, two_pow_ratio, mul_assoc]
  rw [Binary.interval_eq]
  unfold Interval.Contains
  dsimp only
  rw [hend, hend]
  simp only [beq_iff_eq, mul_le_mul_iff_of_pos_right hden, mul_lt_mul_iff_of_pos_right hden]

/-! ## Seventeen digits are enough -/

theorem width_pos (n : Nat) : 0 < width n := Nat.length_toDigits_pos

theorem lt_pow_width (n : Nat) : n < 10 ^ width n :=
  (Nat.length_toDigits_le_iff (by decide) (width_pos n)).1 le_rfl

theorem pow_width_le {n : Nat} (hn : 0 < n) : 10 ^ (width n - 1) ≤ n := by
  by_cases h : width n - 1 = 0
  · rw [h]
    exact hn
  · refine Nat.le_of_not_lt fun hlt => ?_
    have hle : width n ≤ width n - 1 :=
      (Nat.length_toDigits_le_iff (by decide) (Nat.pos_of_ne_zero h)).2 hlt
    omega

theorem pow_leading_le {num den : Nat} (hnum : 0 < num) (hden : 0 < den) :
    (10 : ℚ) ^ leading num den ≤ (num : ℚ) / den := by
  have hden' : (0 : ℚ) < den := by exact_mod_cast hden
  rw [le_div_iff₀ hden']
  unfold leading
  split
  · rename_i h
    have hpos : 0 < num / den := Nat.div_pos h hden
    have hwidth := width_pos (num / den)
    have hle : 10 ^ (width (num / den) - 1) * den ≤ num :=
      (Nat.mul_le_mul_right den (pow_width_le hpos)).trans (Nat.div_mul_le_self num den)
    rw [show (width (num / den) : Int) - 1 = ((width (num / den) - 1 : Nat) : Int) by omega,
      zpow_natCast]
    exact_mod_cast hle
  · have hlt : den < 10 ^ width (den / num) * num :=
      Nat.lt_mul_of_div_lt (lt_pow_width (den / num)) hnum
    rw [zpow_neg, zpow_natCast, inv_mul_le_iff₀ (by positivity)]
    exact_mod_cast hlt.le

theorem Binary.lowQuarters_lt {b : Binary} (hm : b.mantissa ≠ 0) :
    b.lowQuarters < 4 * b.mantissa := by
  unfold Binary.lowQuarters
  split <;> omega

theorem Binary.cast_interval (b : Binary) :
    (b.interval.low : ℚ) = b.lowQuarters * 2 ^ (b.exponent - 2).toNat ∧
      (b.interval.value : ℚ) = 4 * b.mantissa * 2 ^ (b.exponent - 2).toNat ∧
      (b.interval.high : ℚ) = (4 * b.mantissa + 2) * 2 ^ (b.exponent - 2).toNat := by
  simp [Binary.interval_eq]

theorem Binary.value_mem_interval {b : Binary} (hm : b.mantissa ≠ 0) :
    b.interval.low < b.interval.value ∧ b.interval.value < b.interval.high := by
  rw [Binary.interval_eq]
  have hup : 0 < 2 ^ (b.exponent - 2).toNat := by positivity
  exact ⟨Nat.mul_lt_mul_of_pos_right (Binary.lowQuarters_lt hm) hup,
    Nat.mul_lt_mul_of_pos_right (by omega) hup⟩

theorem Binary.cast_lowQuarters {b : Binary} (hm : b.mantissa ≠ 0) :
    (b.lowQuarters : ℚ) = if b.tight then 4 * (b.mantissa : ℚ) - 1 else 4 * b.mantissa - 2 := by
  rw [Binary.lowQuarters]
  split
  · rw [Nat.cast_sub (by omega)]
    push_cast
    ring
  · rw [Nat.cast_sub (by omega)]
    push_cast
    ring

/-- Seventeen digits of a double are finer than its interval, which has 53 bits. -/
theorem Binary.IsCanonical.step_lt_width {b : Binary} (hb : b.IsCanonical) (hm : b.mantissa ≠ 0)
    {s : ℚ} (hfine : s * 10 ^ 16 ≤ b.interval.value) :
    s < (b.interval.high : ℚ) - b.interval.low := by
  obtain ⟨hlow, hvalue, hhigh⟩ := b.cast_interval
  have hup : (0 : ℚ) < (2 : ℚ) ^ (b.exponent - 2).toNat := by positivity
  rw [hvalue] at hfine
  rw [hhigh, hlow, Binary.cast_lowQuarters hm]
  split
  · rename_i ht
    have hmantissa : (b.mantissa : ℚ) = 2 ^ 52 := by exact_mod_cast (hb.tight_iff.1 ht).1
    rw [hmantissa] at hfine ⊢
    nlinarith
  · have hmantissa : (b.mantissa : ℚ) < 2 ^ 53 := by exact_mod_cast hb.mantissa_lt
    have hle : 4 * (b.mantissa : ℚ) * 2 ^ (b.exponent - 2).toNat ≤
        4 * 2 ^ 53 * 2 ^ (b.exponent - 2).toNat :=
      mul_le_mul_of_nonneg_right (by linarith) hup.le
    nlinarith

theorem Binary.IsCanonical.isSome_search {b : Binary} (hb : b.IsCanonical) (hm : b.mantissa ≠ 0) :
    (b.interval.search (leading b.interval.value b.interval.den) 17 1).isSome = true := by
  obtain ⟨hlow, hhigh⟩ := Binary.value_mem_interval hm
  have hden : 0 < b.interval.den := by
    rw [Binary.interval_eq]
    positivity
  have hden' : (0 : ℚ) < b.interval.den := by exact_mod_cast hden
  refine Interval.isSome_search (m := 17) (by decide) (by decide) ?_
  have hlead := pow_leading_le (Nat.zero_lt_of_lt hlow) hden
  generalize leading b.interval.value b.interval.den = first at hlead
  have hfine : (10 : ℚ) ^ (first - (17 : Nat) + 1) * b.interval.den * 10 ^ 16 ≤
      b.interval.value := by
    rw [le_div_iff₀ hden'] at hlead
    refine le_trans (le_of_eq ?_) hlead
    rw [mul_right_comm, ← zpow_natCast, ← zpow_add₀ (by norm_num)]
    congr 2
    omega
  have hstep : (0 : ℚ) < (10 : ℚ) ^ (first - (17 : Nat) + 1) * b.interval.den := by positivity
  exact Interval.isSome_neighbour? hden hlow hhigh (by linarith) (hb.step_lt_width hm hfine)

/-! ## The number that digits denote -/

def Digits.value (d : Digits) : ℚ :=
  Nat.ofDigitChars 10 d.digits 0 * 10 ^ (d.exponent - d.digits.length + 1)

theorem trimZeros_append (digits : List Char) :
    ∃ n, trimZeros digits ++ List.replicate n '0' = digits := by
  refine ⟨(digits.reverse.takeWhile (· == '0')).length, ?_⟩
  have hzeros : digits.reverse.takeWhile (· == '0') =
      List.replicate (digits.reverse.takeWhile (· == '0')).length '0' := by
    refine List.eq_replicate_of_mem fun c hc => ?_
    simpa using List.mem_takeWhile_imp hc
  have h := congrArg List.reverse
    (List.takeWhile_append_dropWhile (p := (· == '0')) (l := digits.reverse))
  rw [List.reverse_append, List.reverse_reverse, hzeros, List.reverse_replicate] at h
  exact h

theorem isDigit_of_mem_ofGrid {count : Nat} {k : Int} {c : Char}
    (hc : c ∈ (ofGrid count k).digits) : c.isDigit = true := by
  obtain ⟨n, hn⟩ := trimZeros_append (Nat.toDigits 10 count)
  refine Nat.isDigit_of_mem_toDigits (b := 10) (n := count) (by decide) (by decide) ?_
  rw [← hn]
  exact List.mem_append_left _ hc

theorem value_ofGrid (count : Nat) (k : Int) : (ofGrid count k).value = count * 10 ^ k := by
  obtain ⟨n, hn⟩ := trimZeros_append (Nat.toDigits 10 count)
  have hcount : Nat.ofDigitChars 10 (trimZeros (Nat.toDigits 10 count)) 0 * 10 ^ n = count := by
    have h := Nat.ofDigitChars_ten_toDigits (n := count)
    rw [← hn, Nat.ofDigitChars_append, Nat.ofDigitChars_replicate_zero] at h
    rw [Nat.mul_comm]
    exact h
  have hlength : (Nat.toDigits 10 count).length =
      (trimZeros (Nat.toDigits 10 count)).length + n := by
    conv_lhs => rw [← hn]
    simp
  unfold Digits.value ofGrid
  dsimp only
  conv_rhs => rw [← hcount]
  rw [hlength, Nat.cast_mul, Nat.cast_pow, Nat.cast_ofNat, mul_assoc, ← zpow_natCast,
    ← zpow_add₀ (by norm_num)]
  congr 2
  push_cast
  ring

/-- The digits of a double denote a number that rounds to the double. -/
theorem Binary.IsCanonical.exists_shortest_eq {b : Binary} (hb : b.IsCanonical)
    (hm : b.mantissa ≠ 0) :
    ∃ (count : Nat) (k : Int), count ≠ 0 ∧ b.interval.Contains (count * 10 ^ k) ∧
      shortest b = ofGrid count k := by
  obtain ⟨d, hd⟩ := Option.isSome_iff_exists.1 (hb.isSome_search hm)
  obtain ⟨count, k, hcount, rfl⟩ := Interval.search_sound hd
  refine ⟨count, k, (Interval.neighbour?_sound hcount).1, (Interval.neighbour?_sound hcount).2, ?_⟩
  rw [shortest, if_neg hm]
  dsimp only
  rw [hd, Option.getD_some]

theorem Binary.IsCanonical.isDigit_of_mem_shortest {b : Binary} (hb : b.IsCanonical) {c : Char}
    (hc : c ∈ (shortest b).digits) : c.isDigit = true := by
  by_cases hm : b.mantissa = 0
  · rw [shortest, if_pos hm, List.mem_singleton] at hc
    subst hc
    decide
  · obtain ⟨count, k, -, -, heq⟩ := hb.exists_shortest_eq hm
    rw [heq] at hc
    exact isDigit_of_mem_ofGrid hc

/-! ## Doubles do not overlap -/

/-- The interval of the greater of two doubles begins where that of the other ends, or above; only one
of them has an end that they share. -/
theorem Binary.IsCanonical.separated {b b' : Binary} (hb : b.IsCanonical) (hb' : b'.IsCanonical)
    (hlt : b.exponent < b'.exponent ∨ b.exponent = b'.exponent ∧ b.mantissa < b'.mantissa) :
    ((4 * b.mantissa + 2 : Nat) : ℚ) * 2 ^ (b.exponent - 2) ≤
        b'.lowQuarters * 2 ^ (b'.exponent - 2) ∧
      (b.mantissa % 2 = 0 → b'.mantissa % 2 = 0 →
        ((4 * b.mantissa + 2 : Nat) : ℚ) * 2 ^ (b.exponent - 2) <
          b'.lowQuarters * 2 ^ (b'.exponent - 2)) := by
  have hpos : (0 : ℚ) < 2 ^ (b.exponent - 2) := by positivity
  have hmantissa := hb.mantissa_lt
  rcases hlt with hlt | ⟨heq, hlt⟩
  · have hnormal := hb'.normal (hb.least.trans_lt hlt)
    have hquarters : 4 * b.mantissa + 2 ≤ 2 * b'.lowQuarters ∧
        (b.mantissa % 2 = 0 → 4 * b.mantissa + 2 < 2 * b'.lowQuarters) := by
      have htight := hb'.tight_iff
      rw [and_iff_left (hb.least.trans_lt hlt)] at htight
      unfold Binary.lowQuarters
      split
      · omega
      · rename_i ht
        rw [htight] at ht
        omega
    have hscale : (2 * b'.lowQuarters : Nat) * (2 : ℚ) ^ (b.exponent - 2) ≤
        b'.lowQuarters * 2 ^ (b'.exponent - 2) := by
      have hle : (2 : ℚ) ^ (b.exponent - 2 + 1) ≤ 2 ^ (b'.exponent - 2) :=
        zpow_le_zpow_right₀ (by norm_num) (by omega)
      rw [zpow_add_one₀ (by norm_num)] at hle
      rw [Nat.cast_mul, Nat.cast_ofNat]
      have hlow : (0 : ℚ) ≤ b'.lowQuarters := Nat.cast_nonneg _
      nlinarith
    refine ⟨le_trans ?_ hscale, fun heven _ => lt_of_lt_of_le ?_ hscale⟩
    · exact mul_le_mul_of_nonneg_right (by exact_mod_cast hquarters.1) hpos.le
    · exact mul_lt_mul_of_pos_right (by exact_mod_cast hquarters.2 heven) hpos
  · rw [← heq]
    have hlow : 4 * b'.mantissa - 2 ≤ b'.lowQuarters := by
      unfold Binary.lowQuarters
      split <;> omega
    refine ⟨mul_le_mul_of_nonneg_right ?_ hpos.le, fun heven heven' =>
      mul_lt_mul_of_pos_right ?_ hpos⟩
    · exact_mod_cast (show 4 * b.mantissa + 2 ≤ b'.lowQuarters by omega)
    · exact_mod_cast (show 4 * b.mantissa + 2 < b'.lowQuarters by omega)

theorem Binary.IsCanonical.not_contains {b b' : Binary} (hb : b.IsCanonical) (hb' : b'.IsCanonical)
    (hlt : b.exponent < b'.exponent ∨ b.exponent = b'.exponent ∧ b.mantissa < b'.mantissa) {x : ℚ}
    (hx : b.interval.Contains x) : ¬ b'.interval.Contains x := by
  obtain ⟨hle, hstrict⟩ := hb.separated hb' hlt
  rw [Binary.contains_interval_iff] at hx ⊢
  intro hx'
  by_cases heven : b.mantissa % 2 = 0 <;> by_cases heven' : b'.mantissa % 2 = 0
  · rw [if_pos heven] at hx
    rw [if_pos heven'] at hx'
    exact absurd (hx'.1.trans hx.2) (not_le.2 (hstrict heven heven'))
  · rw [if_pos heven] at hx
    rw [if_neg heven'] at hx'
    exact absurd (hx'.1.trans_le hx.2) (not_lt.2 hle)
  · rw [if_neg heven] at hx
    rw [if_pos heven'] at hx'
    exact absurd (hx'.1.trans_lt hx.2) (not_lt.2 hle)
  · rw [if_neg heven] at hx
    rw [if_neg heven'] at hx'
    exact absurd (hx'.1.trans hx.2) (not_lt.2 hle)

/-- No number rounds to two doubles. -/
theorem Binary.IsCanonical.eq_of_contains {b b' : Binary} (hb : b.IsCanonical)
    (hb' : b'.IsCanonical) {x : ℚ} (hx : b.interval.Contains x) (hx' : b'.interval.Contains x) :
    b.mantissa = b'.mantissa ∧ b.exponent = b'.exponent := by
  by_contra hne
  rcases lt_trichotomy b.exponent b'.exponent with hlt | heq | hlt
  · exact hb.not_contains hb' (.inl hlt) hx hx'
  · rcases lt_trichotomy b.mantissa b'.mantissa with hlt | heq' | hlt
    · exact hb.not_contains hb' (.inr ⟨heq, hlt⟩) hx hx'
    · exact hne ⟨heq', heq⟩
    · exact hb'.not_contains hb (.inr ⟨heq.symm, hlt⟩) hx' hx
  · exact hb'.not_contains hb (.inl hlt) hx' hx

theorem Binary.IsCanonical.value_shortest_eq_zero_iff {b : Binary} (hb : b.IsCanonical) :
    (shortest b).value = 0 ↔ b.mantissa = 0 := by
  constructor
  · intro hvalue
    by_contra hm
    obtain ⟨count, k, hcount, -, heq⟩ := hb.exists_shortest_eq hm
    have hpos : (count : ℚ) * 10 ^ k ≠ 0 :=
      mul_ne_zero (by exact_mod_cast hcount) (zpow_ne_zero _ (by norm_num))
    rw [heq, value_ofGrid] at hvalue
    exact hpos hvalue
  · intro hm
    rw [shortest, if_pos hm]
    simp [Digits.value, Nat.ofDigitChars]

/-- Doubles whose digits denote the same number are the same. -/
theorem Binary.IsCanonical.eq_of_shortest_value {b b' : Binary} (hb : b.IsCanonical)
    (hb' : b'.IsCanonical) (h : (shortest b).value = (shortest b').value) :
    b.mantissa = b'.mantissa ∧ b.exponent = b'.exponent := by
  by_cases hm : b.mantissa = 0
  · have hm' : b'.mantissa = 0 := by
      rw [← hb'.value_shortest_eq_zero_iff, ← h]
      exact hb.value_shortest_eq_zero_iff.2 hm
    refine ⟨hm.trans hm'.symm, ?_⟩
    have hleast := hb.least
    have hleast' := hb'.least
    have hnormal := hb.normal
    have hnormal' := hb'.normal
    omega
  · have hm' : b'.mantissa ≠ 0 := by
      rw [Ne, ← hb'.value_shortest_eq_zero_iff, ← h]
      exact fun hzero => hm (hb.value_shortest_eq_zero_iff.1 hzero)
    obtain ⟨count, k, -, hcontains, heq⟩ := hb.exists_shortest_eq hm
    obtain ⟨count', k', -, hcontains', heq'⟩ := hb'.exists_shortest_eq hm'
    rw [heq, heq', value_ofGrid, value_ofGrid] at h
    rw [h] at hcontains
    exact hb.eq_of_contains hb' hcontains hcontains'

end Decimal
end PolicyDecision
