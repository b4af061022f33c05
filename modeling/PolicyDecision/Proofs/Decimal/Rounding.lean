import PolicyDecision.Proofs.Decimal.Doubles

/-!
# PolicyDecision.Proofs.Decimal.Rounding

The double of an integer.

An integer keeps its 53 leading bits, rounded to the nearest and at a tie to the even mantissa.
Rounding keeps the order of two integers but not their difference: beyond `2^53` several integers
have one double.

* `Double.nearest`: the integer that the double of an integer stands for.
* `Double.nearest_mono`, `Double.nearest_eq_zero_iff`.
* `Double.value?_ofInt`: the double of an integer stands for the nearest one.
-/

namespace PolicyDecision
namespace Double

open Float.Model UnpackedFloat

/-! ## Rounding to even -/

/-- `n / 2^s`, rounded to the nearest integer and at a tie to the even one. -/
def roundEven (n s : Nat) : Nat :=
  if 2 * (n % 2 ^ s) < 2 ^ s then n / 2 ^ s
  else if 2 * (n % 2 ^ s) = 2 ^ s then n / 2 ^ s + n / 2 ^ s % 2
  else n / 2 ^ s + 1

/-- A natural number with its 53 leading bits. -/
def nearestNat (n : Nat) : Nat := roundEven n (n.log2 - 52) * 2 ^ (n.log2 - 52)

/-- The integer that the double of an integer stands for. -/
def nearest (n : Int) : Int := n.sign * nearestNat n.natAbs

theorem div_le_roundEven (n s : Nat) : n / 2 ^ s ≤ roundEven n s := by
  unfold roundEven
  split
  · exact Nat.le_refl _
  · split <;> omega

theorem roundEven_le (n s : Nat) : roundEven n s ≤ n / 2 ^ s + 1 := by
  unfold roundEven
  split
  · omega
  · split <;> omega

theorem roundEven_zero (n : Nat) : roundEven n 0 = n := by
  simp [roundEven, Nat.mod_one]

theorem roundEven_mul_two_pow (n s j : Nat) : roundEven (n * 2 ^ j) (s + j) = roundEven n s := by
  have hpos : 0 < 2 ^ j := Nat.two_pow_pos j
  have hlt : 2 * (n % 2 ^ s * 2 ^ j) < 2 ^ s * 2 ^ j ↔ 2 * (n % 2 ^ s) < 2 ^ s := by
    rw [← Nat.mul_assoc, Nat.mul_lt_mul_right hpos]
  have heq : 2 * (n % 2 ^ s * 2 ^ j) = 2 ^ s * 2 ^ j ↔ 2 * (n % 2 ^ s) = 2 ^ s := by
    rw [← Nat.mul_assoc, Nat.mul_left_inj hpos.ne']
  unfold roundEven
  rw [Nat.pow_add, Nat.mul_mod_mul_right, Nat.mul_div_mul_right _ _ hpos]
  simp only [hlt, heq]

theorem roundEven_mono {a b : Nat} (h : a ≤ b) (s : Nat) : roundEven a s ≤ roundEven b s := by
  rcases (Nat.div_le_div_right h : a / 2 ^ s ≤ b / 2 ^ s).lt_or_eq with hlt | heq
  · exact (roundEven_le a s).trans (Nat.le_trans hlt (div_le_roundEven b s))
  · have hrest : a % 2 ^ s ≤ b % 2 ^ s := by
      have ha := Nat.div_add_mod a (2 ^ s)
      have hb := Nat.div_add_mod b (2 ^ s)
      rw [heq] at ha
      omega
    unfold roundEven
    rw [heq]
    split_ifs <;> omega

/-- What is kept of a number with at least 53 bits is a mantissa of 53 bits, or just above. -/
theorem roundEven_bounds {n : Nat} (h : 52 ≤ n.log2) :
    2 ^ 52 ≤ roundEven n (n.log2 - 52) ∧ roundEven n (n.log2 - 52) ≤ 2 ^ 53 := by
  have hn : n ≠ 0 := fun h0 => by
    rw [h0] at h
    exact absurd h (by decide)
  have hpos : 0 < 2 ^ (n.log2 - 52) := Nat.two_pow_pos _
  have hlow : 2 ^ 52 ≤ n / 2 ^ (n.log2 - 52) := by
    rw [Nat.le_div_iff_mul_le hpos, ← Nat.pow_add, Nat.add_sub_cancel' h]
    exact Nat.log2_self_le hn
  have hhigh : n / 2 ^ (n.log2 - 52) < 2 ^ 53 := by
    rw [Nat.div_lt_iff_lt_mul hpos, ← Nat.pow_add]
    refine Nat.lt_log2_self.trans_le (Nat.pow_le_pow_right (by decide) ?_)
    omega
  exact ⟨hlow.trans (div_le_roundEven _ _), (roundEven_le _ _).trans hhigh⟩

/-! ## The nearest double -/

theorem nearestNat_eq_self {n : Nat} (h : n < 2 ^ 53) : nearestNat n = n := by
  have hlog : n.log2 - 52 = 0 := by
    by_cases h0 : n = 0
    · rw [h0]; rfl
    · have := (Nat.log2_lt h0).2 h
      omega
  rw [nearestNat, hlog, roundEven_zero, Nat.pow_zero, Nat.mul_one]

/-- Rounding does not leave the powers of two around a number. -/
theorem nearestNat_bounds {n : Nat} (h : n ≠ 0) :
    2 ^ n.log2 ≤ nearestNat n ∧ nearestNat n ≤ 2 ^ (n.log2 + 1) := by
  by_cases hsmall : n < 2 ^ 53
  · rw [nearestNat_eq_self hsmall]
    exact ⟨Nat.log2_self_le h, Nat.lt_log2_self.le⟩
  · have hlog : 52 ≤ n.log2 := ((Nat.le_log2 h).2 (Nat.le_of_not_lt hsmall)).trans' (by decide)
    obtain ⟨hlow, hhigh⟩ := roundEven_bounds hlog
    constructor
    · calc 2 ^ n.log2 = 2 ^ 52 * 2 ^ (n.log2 - 52) := by rw [← Nat.pow_add, Nat.add_sub_cancel' hlog]
        _ ≤ nearestNat n := Nat.mul_le_mul_right _ hlow
    · calc nearestNat n ≤ 2 ^ 53 * 2 ^ (n.log2 - 52) := Nat.mul_le_mul_right _ hhigh
        _ = 2 ^ (n.log2 + 1) := by rw [← Nat.pow_add]; congr 1; omega

theorem nearestNat_mono {a b : Nat} (h : a ≤ b) : nearestNat a ≤ nearestNat b := by
  by_cases ha : a = 0
  · subst ha
    exact Nat.zero_le _
  have hb : b ≠ 0 := by omega
  have hlog : a.log2 ≤ b.log2 := (Nat.le_log2 hb).2 ((Nat.log2_self_le ha).trans h)
  rcases hlog.lt_or_eq with hlt | heq
  · calc nearestNat a ≤ 2 ^ (a.log2 + 1) := (nearestNat_bounds ha).2
      _ ≤ 2 ^ b.log2 := Nat.pow_le_pow_right (by decide) hlt
      _ ≤ nearestNat b := (nearestNat_bounds hb).1
  · rw [nearestNat, nearestNat, heq]
    exact Nat.mul_le_mul_right _ (roundEven_mono h _)

theorem nearest_natCast (n : Nat) : nearest n = nearestNat n := by
  by_cases h : n = 0
  · subst h
    rfl
  · rw [nearest, Int.sign_natCast_of_ne_zero h, Int.natAbs_natCast, one_mul]

theorem nearest_neg (n : Int) : nearest (-n) = -nearest n := by
  rw [nearest, nearest, Int.sign_neg, Int.natAbs_neg, neg_mul]

theorem nearest_nonneg {n : Int} (h : 0 ≤ n) : 0 ≤ nearest n := by
  obtain ⟨n, rfl⟩ := Int.eq_ofNat_of_zero_le h
  exact nearest_natCast n ▸ Int.natCast_nonneg _

theorem nearest_mono {a b : Int} (h : a ≤ b) : nearest a ≤ nearest b := by
  have hnat {a b : Int} (ha : 0 ≤ a) (h : a ≤ b) : nearest a ≤ nearest b := by
    obtain ⟨m, rfl⟩ := Int.eq_ofNat_of_zero_le ha
    obtain ⟨n, rfl⟩ := Int.eq_ofNat_of_zero_le (ha.trans h)
    rw [nearest_natCast, nearest_natCast]
    exact_mod_cast nearestNat_mono (by exact_mod_cast h)
  rcases le_total 0 a with ha | ha
  · exact hnat ha h
  rcases le_total 0 b with hb | hb
  · have := nearest_nonneg hb
    have hneg := nearest_nonneg (neg_nonneg.2 ha)
    rw [nearest_neg] at hneg
    omega
  · have hneg := hnat (neg_nonneg.2 hb) (neg_le_neg h)
    rw [nearest_neg, nearest_neg] at hneg
    exact neg_le_neg_iff.1 hneg

theorem nearest_eq_zero_iff {n : Int} : nearest n = 0 ↔ n = 0 := by
  refine ⟨fun h => ?_, fun h => by rw [h]; rfl⟩
  by_contra hn
  have hlow := (nearestNat_bounds (Int.natAbs_ne_zero.2 hn)).1
  have hpos := Nat.two_pow_pos n.natAbs.log2
  rcases Int.mul_eq_zero.1 h with hsign | hzero
  · exact hn (Int.sign_eq_zero_iff_zero.1 hsign)
  · omega

/-! ## Rounding in the format -/

/-- Shifting one bit further: the last bit dropped, and whether any before it was set. -/
theorem shiftRight_succ (m k : Nat) :
    (⟨m, false, false⟩ : ExtendedMantissa) >>> (k + 1) =
      ⟨m / 2 ^ (k + 1), m / 2 ^ k % 2 != 0, m % 2 ^ k != 0⟩ := by
  induction k with
  | zero => simp [HShiftRight.hShiftRight, Nat.repeat, ExtendedMantissa.shiftRightOne, Nat.mod_one]
  | succ k ih =>
    show ((⟨m, false, false⟩ : ExtendedMantissa) >>> (k + 1)).shiftRightOne = _
    rw [ih]
    have hquotient : m / 2 ^ (k + 1) / 2 = m / 2 ^ (k + 1 + 1) := by
      rw [Nat.div_div_eq_div_mul, ← Nat.pow_succ]
    have hrest : (m / 2 ^ k % 2 != 0 || m % 2 ^ k != 0) = (m % 2 ^ (k + 1) != 0) := by
      rw [Nat.mod_pow_succ]
      rcases Nat.mod_two_eq_zero_or_one (m / 2 ^ k) with h | h <;> simp [h]
    rw [ExtendedMantissa.shiftRightOne, hquotient, hrest]

theorem roundedMantissa_shiftRight (m k : Nat) :
    ((⟨m, false, false⟩ : ExtendedMantissa) >>> k).roundedMantissa = roundEven m k := by
  cases k with
  | zero => exact (roundEven_zero m).symm
  | succ k =>
    have hrest := Nat.mod_lt m (Nat.two_pow_pos k)
    rw [shiftRight_succ, roundEven, Nat.mod_pow_succ, Nat.pow_succ]
    rcases Nat.mod_two_eq_zero_or_one (m / 2 ^ k) with hbit | hbit
    · have hlt : 2 * (m % 2 ^ k + 2 ^ k * (m / 2 ^ k % 2)) < 2 ^ k * 2 := by rw [hbit]; omega
      rw [if_pos hlt, hbit]
      cases m % 2 ^ k <;> rfl
    · have hge : ¬ 2 * (m % 2 ^ k + 2 ^ k * (m / 2 ^ k % 2)) < 2 ^ k * 2 := by rw [hbit]; omega
      rw [if_neg hge, hbit]
      cases hzero : m % 2 ^ k with
      | zero =>
        rw [if_pos (by omega)]
        rfl
      | succ r =>
        rw [if_neg (by omega)]
        rfl

theorem shiftToTargetExponent_eq {m : Nat} {e : Int} (h : -1074 ≤ e + (m.log2 - 52 : Nat)) :
    shiftToTargetExponent Format.binary64 m e .exact =
      ((⟨m, false, false⟩ : ExtendedMantissa) >>> (m.log2 - 52), e + (m.log2 - 52 : Nat)) := by
  have hamount : (Format.binary64.targetExponent (totalExponent m e) - e).toNat = m.log2 - 52 := by
    have hbits : Format.binary64.mantissaBits = 53 := rfl
    have hleast : Format.binary64.minExponent = -1074 := rfl
    rw [Format.targetExponent, totalExponent, hbits, hleast]
    omega
  rw [shiftToTargetExponent, shiftToExponent, hamount]
  rfl

variable {m : Nat} {e : Int} (s : Sign)

/-- The two shifts of a rounding: the mantissa rounded after the first one may be too wide again. -/
theorem roundWithAccuracy_of_shifts {spec : Format} {accuracy : Accuracy}
    {x y : ExtendedMantissa × Int} {r : Nat} (hx : shiftToTargetExponent spec m e accuracy = x)
    (hr : x.1.roundedMantissa = r) (hy : shiftToTargetExponent spec r x.2 .exact = y)
    (hpos : 0 < y.1.mantissa) :
    roundWithAccuracy spec s m e accuracy = .finite s y.1.mantissa y.2 hpos := by
  subst hx hr hy
  exact dif_neg hpos.ne'

theorem roundWithAccuracy_of_lt (hleast : -1074 ≤ e + (m.log2 - 52 : Nat))
    (hlt : roundEven m (m.log2 - 52) < 2 ^ 53) (hpos : 0 < roundEven m (m.log2 - 52)) :
    roundWithAccuracy Format.binary64 s m e .exact =
      .finite s (roundEven m (m.log2 - 52)) (e + (m.log2 - 52 : Nat)) hpos := by
  have hlog : (roundEven m (m.log2 - 52)).log2 - 52 = 0 := by
    have := (Nat.log2_lt hpos.ne').2 hlt
    omega
  have hsecond : shiftToTargetExponent Format.binary64 (roundEven m (m.log2 - 52))
      (e + (m.log2 - 52 : Nat)) .exact =
      (⟨roundEven m (m.log2 - 52), false, false⟩, e + (m.log2 - 52 : Nat)) := by
    rw [shiftToTargetExponent_eq (by rw [hlog]; omega), hlog]
    exact Prod.ext rfl (Int.add_zero _)
  exact roundWithAccuracy_of_shifts s (shiftToTargetExponent_eq hleast)
    (roundedMantissa_shiftRight _ _) hsecond hpos

theorem isCanonical_of_log2_eq (hlog : m.log2 = 52) (hleast : -1074 ≤ e) (hlarge : e ≤ 971) :
    IsCanonical m e := by
  have hm : m ≠ 0 := fun h0 => by
    rw [h0] at hlog
    exact absurd hlog (by decide)
  have hbounds := (Nat.log2_eq_iff hm).1 hlog
  exact ⟨hbounds.2, hleast, hlarge, fun _ => hbounds.1⟩

/-- A mantissa of 53 bits is kept. -/
theorem roundWithAccuracy_of_log2_eq (hm : 0 < m) (hlog : m.log2 = 52) (hleast : -1074 ≤ e)
    (hlarge : e ≤ 971) : roundWithAccuracy Format.binary64 s m e .exact = .finite s m e hm := by
  have hkept : roundEven m (m.log2 - 52) = m := by rw [hlog, Nat.sub_self, roundEven_zero]
  have hshift : e + (m.log2 - 52 : Nat) = e := by rw [hlog, Nat.sub_self, Nat.cast_zero, add_zero]
  have hlt := (isCanonical_of_log2_eq hlog hleast hlarge).mantissa_lt
  rw [roundWithAccuracy_of_lt s (by rw [hshift]; exact hleast) (by rw [hkept]; exact hlt)
    (by rw [hkept]; exact hm)]
  exact finite_congr rfl hkept hshift

/-- The mantissa is rounded up to 54 bits, so one bit more is dropped. -/
theorem roundWithAccuracy_of_carry (hleast : -1074 ≤ e + (m.log2 - 52 : Nat))
    (heq : roundEven m (m.log2 - 52) = 2 ^ 53) :
    roundWithAccuracy Format.binary64 s m e .exact =
      .finite s (2 ^ 52) (e + (m.log2 - 52 : Nat) + 1) (by decide) := by
  have hsecond : shiftToTargetExponent Format.binary64 (2 ^ 53) (e + (m.log2 - 52 : Nat)) .exact =
      (⟨2 ^ 52, false, false⟩, e + (m.log2 - 52 : Nat) + 1) := by
    have hlog : (2 ^ 53).log2 - 52 = 1 := by rw [Nat.log2_two_pow]
    rw [shiftToTargetExponent_eq (by rw [hlog]; omega), hlog]
    rfl
  exact roundWithAccuracy_of_shifts s (shiftToTargetExponent_eq hleast)
    ((roundedMantissa_shiftRight _ _).trans heq) hsecond (Nat.two_pow_pos 52)

/-- Rounding the exact number `m * 2^e` to a double. -/
theorem roundWithAccuracy_exact (hlog : 52 ≤ m.log2) (hleast : -1074 ≤ e + (m.log2 - 52 : Nat))
    (hlarge : e + (m.log2 - 52 : Nat) < 971) :
    ∃ m' e', ∃ hm' : 0 < m', roundWithAccuracy Format.binary64 s m e .exact = .finite s m' e' hm' ∧
      IsCanonical m' e' ∧
      (m' : ℚ) * 2 ^ e' = roundEven m (m.log2 - 52) * 2 ^ (e + (m.log2 - 52 : Nat)) := by
  obtain ⟨hlow, hhigh⟩ := roundEven_bounds hlog
  rcases hhigh.lt_or_eq with hlt | heq
  · exact ⟨_, _, Nat.lt_of_lt_of_le (by decide) hlow, roundWithAccuracy_of_lt s hleast hlt _,
      ⟨hlt, hleast, hlarge.le, fun _ => hlow⟩, rfl⟩
  · refine ⟨_, _, _, roundWithAccuracy_of_carry s hleast heq,
      ⟨by decide, by omega, by omega, fun _ => Nat.le_refl _⟩, ?_⟩
    rw [heq, zpow_add_one₀ (by norm_num)]
    push_cast
    ring

/-- The number of an exact number rounded to a double. -/
theorem value?_round (hlog : 52 ≤ m.log2) (hleast : -1074 ≤ e + (m.log2 - 52 : Nat))
    (hlarge : e + (m.log2 - 52 : Nat) < 971) :
    value? (.ofModel (.pack (roundWithAccuracy Format.binary64 .positive m e .exact))) =
      some ((roundEven m (m.log2 - 52) : ℚ) * 2 ^ (e + (m.log2 - 52 : Nat))) := by
  obtain ⟨m', e', hm', hround, hcanonical, hvalue⟩ :=
    roundWithAccuracy_exact .positive hlog hleast hlarge
  show unpackedValue? (Float.Model.unpack _) = _
  rw [hround, unpack_pack hm' hcanonical]
  exact congrArg some hvalue

/-! ## Integers -/

theorem log2_mul_two_pow {n : Nat} (h : n ≠ 0) (j : Nat) : (n * 2 ^ j).log2 = n.log2 + j := by
  rw [Nat.log2_eq_iff (Nat.mul_ne_zero h (Nat.two_pow_pos j).ne')]
  constructor
  · rw [Nat.pow_add]
    exact Nat.mul_le_mul_right _ (Nat.log2_self_le h)
  · rw [Nat.add_right_comm, Nat.pow_add]
    exact Nat.mul_lt_mul_of_pos_right Nat.lt_log2_self (Nat.two_pow_pos j)

/-- A number of at most 53 bits as a double. -/
theorem unpack_toFloat {n : Nat} (h : n ≠ 0) (hn : n < 2 ^ 53) (hpos : 0 < n * 2 ^ (52 - n.log2)) :
    n.toUInt64.toFloat.toModel.unpack =
      .finite .positive (n * 2 ^ (52 - n.log2)) (-(52 - n.log2 : Nat)) hpos := by
  have hlog : n.log2 ≤ 52 := Nat.lt_succ_iff.1 ((Nat.log2_lt h).2 hn)
  have hscaled : (n * 2 ^ (52 - n.log2)).log2 = 52 := by
    rw [log2_mul_two_pow h]
    omega
  have hword : (n.toUInt64.toNat : Int) = n := by
    rw [Nat.toUInt64, UInt64.toNat_ofNat', Nat.mod_eq_of_lt (hn.trans (by decide))]
  have htarget : Format.binary64.targetExponent (totalExponent n 0) = -(52 - n.log2 : Nat) := by
    have hbits : Format.binary64.mantissaBits = 53 := rfl
    have hleast : Format.binary64.minExponent = -1074 := rfl
    rw [Format.targetExponent, totalExponent, hbits, hleast]
    omega
  have hshift : (0 - -((52 - n.log2 : Nat) : Int)).toNat = 52 - n.log2 := by omega
  show (Float.Model.pack
    (UnpackedFloat.normalize Format.binary64 n.toUInt64.toNat 0 .positive)).unpack = _
  rw [hword, UnpackedFloat.normalize, compare_gt_iff_gt.2 (by omega)]
  show (Float.Model.pack (UnpackedFloat.round Format.binary64 .positive (n : Int).toNat 0)).unpack = _
  rw [Int.toNat_natCast, UnpackedFloat.round, htarget, decreaseExponent, hshift]
  dsimp only
  rw [Nat.shiftLeft_eq, zero_sub, roundWithAccuracy_of_log2_eq _ hpos hscaled (by omega) (by omega)]
  exact unpack_pack hpos (isCanonical_of_log2_eq hscaled (by omega) (by omega))

theorem ofScientific_zero {n : Nat} (h : n ≠ 0) :
    UnpackedFloat.ofScientific Format.binary64 n 0 =
      roundWithAccuracy Format.binary64 .positive (n * 2 ^ 53) (-53) .exact := by
  have hexponent : (2 : Int) ^ Format.binary64.exponentBits = 2048 := rfl
  have hbits : Format.binary64.mantissaBits = 53 := rfl
  refine (dif_neg h).trans ?_
  rw [if_neg (by rw [hexponent]; decide), if_neg (by rw [hexponent]; omega), if_pos (by decide)]
  show roundWithAccuracy Format.binary64 .positive
    (n <<< Format.binary64.mantissaBits * 10 ^ (0 : Int).toNat)
    (-(Format.binary64.mantissaBits : Int) + 0) .exact = _
  rw [hbits, Int.toNat_zero, pow_zero, mul_one, Nat.shiftLeft_eq, add_zero]
  rfl

/-- The double of a natural number stands for the nearest one with 53 leading bits. -/
theorem value?_ofNat {n : Nat} (h : n.log2 < 1023) :
    value? (Float.ofNat n) = some (nearestNat n : ℚ) := by
  by_cases h0 : n = 0
  · subst h0
    rfl
  show value? (Float.ofScientific n false 0) = _
  rw [Float.ofScientific]
  by_cases hn : n < 2 ^ 53
  · have hlog : n.log2 ≤ 52 := Nat.lt_succ_iff.1 ((Nat.log2_lt h0).2 hn)
    have hpos : 0 < n * 2 ^ (52 - n.log2) := by positivity
    have hscaled : (n * 2 ^ (52 - n.log2) * 2 ^ 52).log2 - 52 = 0 + 52 := by
      rw [log2_mul_two_pow hpos.ne', log2_mul_two_pow h0]
      omega
    have hone : (Float.ofBits 0x3FF0000000000000).toModel.unpack =
      .finite .positive (2 ^ 52) (-52) (by decide) := rfl
    rw [dif_pos ⟨hn, by decide⟩]
    show value? (.ofModel (.pack (UnpackedFloat.mul Format.binary64 n.toUInt64.toFloat.toModel.unpack
      (Float.ofBits 0x3FF0000000000000).toModel.unpack))) = _
    rw [unpack_toFloat h0 hn hpos, hone]
    refine (value?_round (by omega) (by omega) (by omega)).trans (congrArg some ?_)
    have hexponent : -((52 - n.log2 : Nat) : Int) + -52 + (0 + 52 : Nat) = -(52 - n.log2 : Nat) := by
      omega
    rw [hscaled, roundEven_mul_two_pow, roundEven_zero, nearestNat_eq_self hn, hexponent, zpow_neg,
      zpow_natCast]
    push_cast
    exact mul_inv_cancel_right₀ (by positivity) _
  · rw [dif_neg fun hsmall => hn hsmall.1]
    have hlog : 53 ≤ n.log2 := (Nat.le_log2 h0).2 (Nat.le_of_not_lt hn)
    have hscaled : (n * 2 ^ 53).log2 - 52 = n.log2 - 52 + 53 := by
      rw [log2_mul_two_pow h0]
      omega
    show value? (.ofModel (.pack (UnpackedFloat.ofScientific Format.binary64 n 0))) = _
    have hexponent : (-53 : Int) + (n.log2 - 52 + 53 : Nat) = (n.log2 - 52 : Nat) := by omega
    rw [ofScientific_zero h0, value?_round (by omega) (by omega) (by omega), hscaled,
      roundEven_mul_two_pow, hexponent, zpow_natCast, nearestNat]
    push_cast
    rfl

theorem value?_neg {x : Float} {a : ℚ} (h : value? x = some a) : value? (-x) = some (-a) := by
  have hcanonical := isCanonical_unpack x.toModel
  show unpackedValue? (Float.Model.pack x.toModel.unpack.neg).unpack = _
  unfold value? at h
  cases hu : x.toModel.unpack with
  | infinity s => rw [hu] at h; cases h
  | notANumber => rw [hu] at h; cases h
  | zero s =>
    rw [hu] at h
    obtain rfl := Option.some_inj.1 h
    cases s <;> rfl
  | finite s m e hm =>
    rw [hu] at h hcanonical
    obtain rfl := Option.some_inj.1 h
    cases s with
    | positive =>
      show unpackedValue? (Float.Model.pack (.finite .negative m e hm)).unpack = _
      rw [unpack_pack hm hcanonical]
      show some (((-(m : Int) : Int) : ℚ) * 2 ^ e) = some (-(((m : Int) : ℚ) * 2 ^ e))
      rw [Int.cast_neg, neg_mul]
    | negative =>
      show unpackedValue? (Float.Model.pack (.finite .positive m e hm)).unpack = _
      rw [unpack_pack hm hcanonical]
      show some (((m : Int) : ℚ) * 2 ^ e) = some (-(((-(m : Int) : Int) : ℚ) * 2 ^ e))
      rw [Int.cast_neg, neg_mul, neg_neg]

/-- The double of an integer stands for the nearest one. -/
theorem value?_ofInt {n : Int} (h : n.natAbs ≤ 2 ^ 64) :
    value? (Float.ofInt n) = some (nearest n : ℚ) := by
  have hlog : n.natAbs.log2 < 1023 := by
    by_cases h0 : n.natAbs = 0
    · rw [h0]
      decide
    · have := (Nat.log2_lt h0).2 (h.trans_lt (by decide : 2 ^ 64 < 2 ^ 65))
      omega
  cases n with
  | ofNat n => exact (value?_ofNat hlog).trans (congrArg (some ∘ Int.cast) (nearest_natCast n).symm)
  | negSucc n =>
    refine (value?_neg (value?_ofNat hlog)).trans (congrArg some ?_)
    rw [Int.negSucc_eq, nearest_neg, ← Nat.cast_succ, nearest_natCast]
    push_cast
    rfl

end Double
end PolicyDecision
