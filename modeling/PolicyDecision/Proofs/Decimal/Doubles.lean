import Mathlib.Algebra.Order.Field.Power
import Mathlib.Data.Rat.Cast.Order
import Mathlib.Tactic.Linarith
import Mathlib.Tactic.NormNum
import Mathlib.Tactic.Positivity
import Mathlib.Tactic.Ring

/-!
# PolicyDecision.Proofs.Decimal.Doubles

The numbers that doubles stand for, and their order.

A finite double is `± mantissa * 2^exponent`, with a mantissa of 53 bits unless the exponent is least.
So the double with the greater exponent is the greater one, and doubles compare as their numbers do.

* `Double.value?`: the number of a finite double.
* `Double.isCanonical_unpack`, `Double.unpack_pack`: how mantissa and exponent are encoded.
* `Double.lt_iff`, `Double.beq_iff`: the order and the equality of doubles are those of their numbers.
-/

namespace PolicyDecision
namespace Double

open Float.Model UnpackedFloat

def unpackedValue? : UnpackedFloat → Option ℚ
  | .zero _ => some 0
  | .finite s m e _ => some (s.apply m * 2 ^ e)
  | .infinity _ | .notANumber => none

/-- The number that a finite double stands for. -/
def value? (x : Float) : Option ℚ := unpackedValue? x.toModel.unpack

/-- A mantissa of 53 bits, or of fewer with the least exponent. -/
structure IsCanonical (m : Nat) (e : Int) : Prop where
  mantissa_lt : m < 2 ^ 53
  least : -1074 ≤ e
  largest : e ≤ 971
  normal : -1074 < e → 2 ^ 52 ≤ m

/-- What is said of a finite double that is not zero. -/
def IsCanonicalDouble : UnpackedFloat → Prop
  | .finite _ m e _ => IsCanonical m e
  | .zero _ | .infinity _ | .notANumber => True

/-! ## Encoding -/

theorem toNat_implicit {w : Nat} (m : BitVec w) : (1#1 ++ m).toNat = 2 ^ w + m.toNat := by
  rw [BitVec.toNat_append, ← Nat.shiftLeft_add_eq_or_of_lt m.isLt, Nat.shiftLeft_eq,
    BitVec.toNat_ofNat, Nat.mod_eq_of_lt Nat.one_lt_two, Nat.one_mul]

theorem isCanonicalDouble_ite {c : Prop} [Decidable c] {u v : UnpackedFloat}
    (hu : c → IsCanonicalDouble u) (hv : ¬ c → IsCanonicalDouble v) :
    IsCanonicalDouble (if c then u else v) := by
  split
  · exact hu ‹c›
  · exact hv ‹¬ c›

theorem isCanonicalDouble_dite {c : Prop} [Decidable c] {u : c → UnpackedFloat}
    {v : ¬ c → UnpackedFloat} (hu : ∀ h, IsCanonicalDouble (u h))
    (hv : ∀ h, IsCanonicalDouble (v h)) : IsCanonicalDouble (if h : c then u h else v h) := by
  split
  · exact hu _
  · exact hv _

theorem isCanonical_unpack (f : Float.Model) : IsCanonicalDouble f.unpack := by
  have hm : (@unpackMantissa Format.binary64 f.toBits.toBitVec).toNat < 2 ^ 52 :=
    (@unpackMantissa Format.binary64 f.toBits.toBitVec).isLt
  have hbias : Format.binary64.exponentBias = 1023 := rfl
  have hwidth : Format.binary64.mantissaBitsWithoutImplicit = 52 := rfl
  unfold Float.Model.unpack UnpackedFloat.unpack
  refine isCanonicalDouble_ite (fun _ => ?special) fun hones =>
    isCanonicalDouble_ite (fun hzero => isCanonicalDouble_dite (fun _ => trivial) fun _ => ?least)
      fun hzero => ?normal
  case special => exact isCanonicalDouble_ite (fun _ => trivial) fun _ => trivial
  case least =>
    have hexponent := congrArg BitVec.toNat hzero
    rw [BitVec.toNat_ofNat, Nat.zero_mod] at hexponent
    refine ⟨by omega, ?_, ?_, ?_⟩
    · rw [hexponent, hbias]
      decide
    · rw [hexponent, hbias]
      decide
    · rw [hexponent, hbias]
      exact fun h => absurd h (by decide)
  case normal =>
    have hexponent : (@unpackExponent Format.binary64 f.toBits.toBitVec).toNat ≠ 0 :=
      fun h => hzero (BitVec.eq_of_toNat_eq h)
    have hfinite : (@unpackExponent Format.binary64 f.toBits.toBitVec).toNat ≠ 2047 :=
      fun h => hones (BitVec.eq_of_toNat_eq h)
    have hlt : (@unpackExponent Format.binary64 f.toBits.toBitVec).toNat < 2048 :=
      (@unpackExponent Format.binary64 f.toBits.toBitVec).isLt
    have hmantissa : (1#1 ++ @unpackMantissa Format.binary64 f.toBits.toBitVec).toNat =
        2 ^ 52 + (@unpackMantissa Format.binary64 f.toBits.toBitVec).toNat :=
      toNat_implicit _
    refine ⟨?_, ?_, ?_, ?_⟩
    · rw [hmantissa]
      omega
    · rw [hbias]
      omega
    · rw [hbias]
      omega
    · rw [hmantissa]
      omega

theorem unpackSign_packComponents (S : Format) (s : Sign) (e : BitVec S.exponentBits)
    (m : BitVec S.mantissaBitsWithoutImplicit) :
    unpackSign (packComponents S s e m) = s.toBitVec := by
  refine BitVec.eq_of_getLsbD_eq fun i hi => ?_
  obtain rfl : i = 0 := by omega
  show (BitVec.cast _ (BitVec.extractLsb (S.mantissaBitsWithoutImplicit + S.exponentBits)
    (S.mantissaBitsWithoutImplicit + S.exponentBits) (s.toBitVec ++ e ++ m))).getLsbD 0 = _
  simp [BitVec.getLsbD_append, BitVec.getElem_append]

theorem ofBitVec_toBitVec (s : Sign) : Sign.ofBitVec s.toBitVec = s := by
  cases s <;> rfl

theorem ofNat_ne_ones {w n : Nat} (h : n + 1 < 2 ^ w) : BitVec.ofNat w n ≠ -1#w := fun heq => by
  have hn := congrArg BitVec.toNat heq
  rw [BitVec.toNat_ofNat, Nat.mod_eq_of_lt (by omega), BitVec.neg_one_eq_allOnes,
    BitVec.toNat_allOnes] at hn
  omega

theorem ofNat_ne_zero {w n : Nat} (hpos : 0 < n) (h : n < 2 ^ w) : BitVec.ofNat w n ≠ 0#w :=
  fun heq => by
    have hn := congrArg BitVec.toNat heq
    rw [BitVec.toNat_ofNat, Nat.mod_eq_of_lt h, BitVec.toNat_zero] at hn
    exact absurd hn hpos.ne'

theorem finite_congr {s s' : Sign} {m m' : Nat} {e e' : Int} {h : 0 < m} {h' : 0 < m'}
    (hs : s = s') (hm : m = m') (he : e = e') :
    UnpackedFloat.finite s m e h = .finite s' m' e' h' := by
  subst hs hm he
  rfl

/-- Decoding an encoded number whose mantissa has its full width. -/
theorem unpack_packComponents_normal (S : Format) (s : Sign) {biased m : Nat}
    (hbiased : 0 < biased) (hfinite : biased + 1 < 2 ^ S.exponentBits)
    (hm : 2 ^ S.mantissaBitsWithoutImplicit ≤ m)
    (hm' : m < 2 * 2 ^ S.mantissaBitsWithoutImplicit) (hpos : 0 < m) :
    UnpackedFloat.unpack S (packComponents S s (BitVec.ofNat _ biased) (BitVec.ofNat _ m)) =
      .finite s m (biased - (S.exponentBias + S.mantissaBitsWithoutImplicit)) hpos := by
  have hexponent : (BitVec.ofNat S.exponentBits biased).toNat = biased := by
    rw [BitVec.toNat_ofNat, Nat.mod_eq_of_lt (by omega)]
  have hmantissa : (1#1 ++ BitVec.ofNat S.mantissaBitsWithoutImplicit m).toNat = m := by
    rw [toNat_implicit, BitVec.toNat_ofNat, Nat.mod_eq_sub_mod hm, Nat.mod_eq_of_lt (by omega)]
    omega
  unfold UnpackedFloat.unpack
  dsimp only
  rw [if_neg (by
      rw [unpackExponent_packComponents]
      exact ofNat_ne_ones hfinite),
    if_neg (by
      rw [unpackExponent_packComponents]
      exact ofNat_ne_zero hbiased (Nat.lt_of_succ_lt hfinite))]
  refine finite_congr ?_ ?_ ?_
  · rw [unpackSign_packComponents, ofBitVec_toBitVec]
  · rw [unpackMantissa_packComponents, hmantissa]
  · rw [unpackExponent_packComponents, hexponent]

/-- Decoding an encoded number with the least exponent and a shorter mantissa. -/
theorem unpack_packComponents_least (S : Format) (s : Sign) {m : Nat} (hpos : 0 < m)
    (hm : m < 2 ^ S.mantissaBitsWithoutImplicit) :
    UnpackedFloat.unpack S (packComponents S s 0#_ (BitVec.ofNat _ m)) =
      .finite s m (1 - (S.exponentBias + S.mantissaBitsWithoutImplicit)) hpos := by
  have hmantissa : (BitVec.ofNat S.mantissaBitsWithoutImplicit m).toNat = m := by
    rw [BitVec.toNat_ofNat, Nat.mod_eq_of_lt hm]
  have hones : (0#S.exponentBits) ≠ -1#_ :=
    ofNat_ne_ones ((Nat.one_lt_two_pow_iff).2 (by have := S.he; omega))
  unfold UnpackedFloat.unpack
  dsimp only
  rw [if_neg (by rwa [unpackExponent_packComponents]),
    if_pos (unpackExponent_packComponents ..),
    dif_neg (by
      rw [unpackMantissa_packComponents]
      exact ofNat_ne_zero hpos hm)]
  refine finite_congr ?_ ?_ ?_
  · rw [unpackSign_packComponents, ofBitVec_toBitVec]
  · rw [unpackMantissa_packComponents, hmantissa]
  · rw [unpackExponent_packComponents, BitVec.toNat_zero]
    omega

/-- Encoding a canonical double and decoding it again. -/
theorem unpack_pack {s : Sign} {m : Nat} {e : Int} (hm : 0 < m) (h : IsCanonical m e) :
    (Float.Model.pack (.finite s m e hm)).unpack = .finite s m e hm := by
  obtain ⟨hlt, hleast, hlarge, hnormal⟩ := h
  have hbias : Format.binary64.exponentBias = 1023 := rfl
  have hbits : Format.binary64.mantissaBits = 53 := rfl
  have hwidth : Format.binary64.mantissaBitsWithoutImplicit = 52 := rfl
  have hexponent : Format.binary64.exponentBits = 11 := rfl
  have hpack : UnpackedFloat.pack Format.binary64 (.finite s m e hm) =
      if 2 ^ Format.binary64.exponentBits ≤ (e + Format.binary64.exponentBias +
          Format.binary64.mantissaBitsWithoutImplicit).toNat + 1 then
        packedInfinity Format.binary64 s
      else if m.log2 + 1 = Format.binary64.mantissaBits then
        packComponents Format.binary64 s
          (BitVec.ofNat _ (e + Format.binary64.exponentBias +
            Format.binary64.mantissaBitsWithoutImplicit).toNat) (BitVec.ofNat _ m)
      else packComponents Format.binary64 s 0#_ (BitVec.ofNat _ m) := rfl
  show UnpackedFloat.unpack Format.binary64 (UnpackedFloat.pack Format.binary64 _) = _
  rw [hpack]
  by_cases hfull : 2 ^ 52 ≤ m
  · have hlog : m.log2 + 1 = Format.binary64.mantissaBits := by
      have hlow := (Nat.le_log2 hm.ne').2 hfull
      have hhigh := (Nat.log2_lt hm.ne').2 hlt
      omega
    rw [if_pos hlog, if_neg (by rw [hbias, hexponent]; omega),
      unpack_packComponents_normal _ _ (by rw [hbias]; omega)
        (by rw [hbias, hexponent]; omega) hfull (by rw [hwidth]; omega) hm]
    refine finite_congr rfl rfl ?_
    rw [hbias]
    omega
  · have hlog : ¬ m.log2 + 1 = Format.binary64.mantissaBits := by
      have hhigh := (Nat.log2_lt hm.ne').2 (Nat.lt_of_not_le hfull)
      omega
    obtain rfl : e = -1074 := by
      by_contra hne
      exact hfull (hnormal (by omega))
    rw [if_neg hlog, if_neg (by rw [hbias]; decide),
      unpack_packComponents_least _ _ hm (Nat.lt_of_not_le hfull)]
    exact finite_congr rfl rfl (by decide)

/-! ## Order -/

theorem magnitude_lt {m m' : Nat} {e e' : Int} (h : IsCanonical m e) (h' : IsCanonical m' e')
    (hlt : e < e') : (m : ℚ) * 2 ^ e < m' * 2 ^ e' := by
  have hm : (m : ℚ) < 2 ^ 53 := by exact_mod_cast h.mantissa_lt
  have hm' : (2 : ℚ) ^ 52 ≤ m' := by exact_mod_cast h'.normal (lt_of_le_of_lt h.least hlt)
  calc (m : ℚ) * 2 ^ e < 2 ^ 53 * 2 ^ e := by gcongr
    _ = 2 ^ 52 * 2 ^ (e + 1) := by
      rw [zpow_add₀ (by norm_num)]
      ring
    _ ≤ m' * 2 ^ e' := by
      gcongr
      · norm_num
      · omega

/-- The greater exponent decides, then the greater mantissa. -/
theorem compare_magnitude {m m' : Nat} {e e' : Int} (h : IsCanonical m e)
    (h' : IsCanonical m' e') :
    (compare e e').then (compare m m') = compare ((m : ℚ) * 2 ^ e) (m' * 2 ^ e') := by
  have hpos : (0 : ℚ) < 2 ^ e := by positivity
  rcases lt_trichotomy e e' with hlt | rfl | hlt
  · rw [compare_lt_iff_lt.2 hlt, compare_lt_iff_lt.2 (magnitude_lt h h' hlt)]
    rfl
  · rw [compare_eq_iff_eq.2 rfl]
    show compare m m' = _
    rcases lt_trichotomy m m' with hlt | rfl | hlt
    · rw [compare_lt_iff_lt.2 hlt, compare_lt_iff_lt.2 (by gcongr)]
    · rw [compare_eq_iff_eq.2 rfl, compare_eq_iff_eq.2 rfl]
    · rw [compare_gt_iff_gt.2 hlt, compare_gt_iff_gt.2 (by gcongr)]
  · rw [compare_gt_iff_gt.2 hlt, compare_gt_iff_gt.2 (magnitude_lt h' h hlt)]
    rfl

theorem compare_neg (a b : ℚ) : compare (-a) (-b) = (compare a b).swap := by
  rcases lt_trichotomy a b with h | rfl | h
  · rw [compare_lt_iff_lt.2 h, compare_gt_iff_gt.2 (neg_lt_neg h)]
    rfl
  · rw [compare_eq_iff_eq.2 rfl, compare_eq_iff_eq.2 rfl]
    rfl
  · rw [compare_gt_iff_gt.2 h, compare_lt_iff_lt.2 (neg_lt_neg h)]
    rfl

theorem compare_unpacked {u v : UnpackedFloat} {a b : ℚ} (hu : IsCanonicalDouble u)
    (hv : IsCanonicalDouble v) (ha : unpackedValue? u = some a) (hb : unpackedValue? v = some b) :
    u.compare v = some (compare a b) := by
  have hpos (m : Nat) (e : Int) (hm : 0 < m) : (0 : ℚ) < m * 2 ^ e := by positivity
  cases u with
  | infinity s => cases ha
  | notANumber => cases ha
  | zero s =>
    obtain rfl := Option.some_inj.1 ha
    cases v with
    | infinity s => cases hb
    | notANumber => cases hb
    | zero s =>
      obtain rfl := Option.some_inj.1 hb
      rw [compare_eq_iff_eq.2 rfl]
      rfl
    | finite s m e hm =>
      have := hpos m e hm
      obtain rfl := Option.some_inj.1 hb
      cases s with
      | negative =>
        rw [compare_gt_iff_gt.2 (by simp only [Sign.apply]; push_cast; linarith)]
        rfl
      | positive =>
        rw [compare_lt_iff_lt.2 (by simp only [Sign.apply]; push_cast; linarith)]
        rfl
  | finite s m e hm =>
    have := hpos m e hm
    obtain rfl := Option.some_inj.1 ha
    cases v with
    | infinity s => cases hb
    | notANumber => cases hb
    | zero s' =>
      obtain rfl := Option.some_inj.1 hb
      cases s with
      | negative =>
        rw [compare_lt_iff_lt.2 (by simp only [Sign.apply]; push_cast; linarith)]
        rfl
      | positive =>
        rw [compare_gt_iff_gt.2 (by simp only [Sign.apply]; push_cast; linarith)]
        rfl
    | finite s' m' e' hm' =>
      have := hpos m' e' hm'
      obtain rfl := Option.some_inj.1 hb
      cases s with
      | negative =>
        cases s' with
        | negative =>
          have hswap : compare ((Sign.negative.apply m : Int) * 2 ^ e : ℚ)
              ((Sign.negative.apply m' : Int) * 2 ^ e') =
              (compare ((m : ℚ) * 2 ^ e) (m' * 2 ^ e')).swap := by
            simp only [Sign.apply]
            push_cast
            rw [neg_mul, neg_mul, compare_neg]
          rw [hswap, ← compare_magnitude hu hv]
          rfl
        | positive =>
          rw [compare_lt_iff_lt.2 (by simp only [Sign.apply]; push_cast; linarith)]
          rfl
      | positive =>
        cases s' with
        | negative =>
          rw [compare_gt_iff_gt.2 (by simp only [Sign.apply]; push_cast; linarith)]
          rfl
        | positive =>
          refine congrArg some ((compare_magnitude hu hv).trans ?_)
          simp only [Sign.apply, Int.cast_natCast]

variable {x y : Float} {a b : ℚ}

theorem compare_eq (ha : value? x = some a) (hb : value? y = some b) :
    x.toModel.unpack.compare y.toModel.unpack = some (compare a b) :=
  compare_unpacked (isCanonical_unpack _) (isCanonical_unpack _) ha hb

theorem lt_iff (ha : value? x = some a) (hb : value? y = some b) : x < y ↔ a < b := by
  show decide ((x.toModel.unpack.compare y.toModel.unpack == some .lt) = true) = true ↔ _
  rw [decide_eq_true_iff, compare_eq ha hb, beq_iff_eq, Option.some_inj, compare_lt_iff_lt]

theorem beq_iff (ha : value? x = some a) (hb : value? y = some b) : (x == y) = true ↔ a = b := by
  show (x.toModel.unpack.compare y.toModel.unpack == some .eq) = true ↔ _
  rw [compare_eq ha hb, beq_iff_eq, Option.some_inj, compare_eq_iff_eq]

theorem exists_value (h : x.isFinite = true) : ∃ a, value? x = some a := by
  have h' : x.toModel.unpack.isFinite = true := h
  unfold value?
  cases hu : x.toModel.unpack with
  | infinity s => rw [hu] at h'; cases h'
  | notANumber => rw [hu] at h'; cases h'
  | zero s => exact ⟨_, rfl⟩
  | finite s m e hm => exact ⟨_, rfl⟩

end Double
end PolicyDecision
