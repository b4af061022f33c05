import Mathlib.Tactic.Linarith
import Mathlib.Tactic.Positivity
import Mathlib.Tactic.Ring
import PolicyDecision.Evaluation.Selection
import PolicyDecision.Operator.Arithmetic

/-!
# PolicyDecision.Proofs.Evaluation.Slices

The indices of a slice, and their computation on signed words.

A slice goes from its first index in steps of its stride, up or down, as long as it is before its last
one. The same indices come out of a loop over signed words in which no sum leaves the words, other
than the one behind the last index, which ends the loop.

* `Slice.first`, `Slice.last`: the clamped bounds; an absent one is the end that the stride makes it.
* `Slice.IsProgression`: the list of all terms before the last index.
* `Slice.wordIndices`: the loop over signed words.
* `sliceIndices_exact`: all three are the same, and the indices are those of elements.
-/

namespace PolicyDecision
namespace Slice

/-! ## Progressions -/

/-- A term that does not reach the end yet, going up or down. -/
def Before (stride limit i : Int) : Prop := if 0 < stride then i < limit else limit < i

instance (stride limit i : Int) : Decidable (Before stride limit i) := by
  unfold Before
  infer_instance

/-- The list of `origin`, `origin + stride`, … up to the last term before the end. -/
structure IsProgression (origin limit stride : Int) (indices : List Nat) : Prop where
  term : ∀ k i : Nat, indices[k]? = some i → (i : Int) = origin + k * stride
  lt_length_iff : ∀ k : Nat, k < indices.length ↔ Before stride limit (origin + k * stride)

variable {origin limit stride : Int} {indices : List Nat}

theorem Before.earlier {i : Int} {k : Nat} (h : Before stride limit (i + k * stride)) :
    Before stride limit i := by
  unfold Before at h ⊢
  split at h
  · have : 0 ≤ (k : Int) * stride := by positivity
    rw [if_pos ‹_›]
    omega
  · have : (k : Int) * stride ≤ 0 :=
      Int.mul_nonpos_of_nonneg_of_nonpos (Int.natCast_nonneg k) (by omega)
    rw [if_neg ‹_›]
    omega

namespace IsProgression

/-- A progression has one list of terms. -/
theorem unique {indices' : List Nat} (h : IsProgression origin limit stride indices)
    (h' : IsProgression origin limit stride indices') : indices = indices' := by
  have hlength : indices.length = indices'.length :=
    Nat.le_antisymm
      (Nat.le_of_not_lt fun hlt =>
        Nat.lt_irrefl _ ((h'.lt_length_iff _).2 ((h.lt_length_iff _).1 hlt)))
      (Nat.le_of_not_lt fun hlt =>
        Nat.lt_irrefl _ ((h.lt_length_iff _).2 ((h'.lt_length_iff _).1 hlt)))
  refine List.ext_getElem hlength fun k hk hk' => ?_
  have hterm := h.term k _ (List.getElem?_eq_getElem hk)
  have hterm' := h'.term k _ (List.getElem?_eq_getElem hk')
  omega

/-- Nothing lies before the end. -/
theorem nil (h : ¬ Before stride limit origin) : IsProgression origin limit stride [] where
  term := by simp
  lt_length_iff k := iff_of_false (Nat.not_lt_zero k) fun hk => h hk.earlier

/-- A first term before the end, and the progression of the terms behind it. -/
theorem cons {i : Nat} (h : Before stride limit i)
    (hrest : IsProgression (i + stride) limit stride indices) :
    IsProgression i limit stride (i :: indices) where
  term k j hj := by
    cases k with
    | zero =>
      obtain rfl : i = j := by simpa using hj
      simp
    | succ k =>
      have := hrest.term k j (by simpa using hj)
      push_cast
      linarith
  lt_length_iff k := by
    cases k with
    | zero => simpa using h
    | succ k =>
      have hnext : (i : Int) + (k + 1 : Nat) * stride = i + stride + k * stride := by
        push_cast
        ring
      rw [hnext, ← hrest.lt_length_iff, List.length_cons, Nat.succ_lt_succ_iff]

theorem mem_iff (h : IsProgression origin limit stride indices) {i : Nat} :
    i ∈ indices ↔ ∃ k : Nat, (i : Int) = origin + k * stride ∧ Before stride limit i := by
  rw [List.mem_iff_getElem?]
  constructor
  · rintro ⟨k, hk⟩
    obtain ⟨hlt, _⟩ := List.getElem?_eq_some_iff.1 hk
    have hterm := h.term k i hk
    exact ⟨k, hterm, hterm ▸ (h.lt_length_iff k).1 hlt⟩
  · rintro ⟨k, hterm, hbefore⟩
    have hlt := (h.lt_length_iff k).2 (hterm ▸ hbefore)
    refine ⟨k, ?_⟩
    have hget := List.getElem?_eq_getElem hlt
    have := h.term k _ hget
    rw [hget, Option.some_inj]
    omega

/-- The terms go strictly up or strictly down. -/
theorem pairwise (h : IsProgression origin limit stride indices) (hstride : stride ≠ 0) :
    indices.Pairwise fun i j => if 0 < stride then i < j else j < i := by
  refine List.pairwise_iff_getElem.2 fun k l hk hl hkl => ?_
  have hterm := h.term k _ (List.getElem?_eq_getElem hk)
  have hterm' := h.term l _ (List.getElem?_eq_getElem hl)
  obtain ⟨d, rfl⟩ := Nat.exists_eq_add_of_lt hkl
  have hdiff : ((indices[k + d + 1] : Nat) : Int) = indices[k] + (d + 1 : Nat) * stride := by
    rw [hterm, hterm']
    push_cast
    ring
  split
  · have : 0 < ((d + 1 : Nat) : Int) * stride := by positivity
    omega
  · have : ((d + 1 : Nat) : Int) * stride < 0 :=
      Int.mul_neg_of_pos_of_neg (by omega) (by omega)
    omega

theorem nodup (h : IsProgression origin limit stride indices) (hstride : stride ≠ 0) :
    indices.Nodup := by
  refine (h.pairwise hstride).imp fun {i j} hij heq => ?_
  subst heq
  split at hij <;> exact Nat.lt_irrefl i hij

end IsProgression

/-- The number of terms is the distance over the stride, rounded up. -/
theorem lt_length_progression_iff (hstride : stride ≠ 0) (k : Nat) :
    k < (progression origin limit stride).length ↔ Before stride limit (origin + k * stride) := by
  have hwidth : 0 < stride.natAbs := Int.natAbs_pos.2 hstride
  have hcount (distance : Int) (hd : 0 < distance) :
      k < (distance.toNat + stride.natAbs - 1) / stride.natAbs ↔
        (k : Int) * stride.natAbs < distance := by
    rw [Nat.lt_iff_add_one_le, Nat.le_div_iff_mul_le hwidth, Nat.add_one_mul]
    zify [show 1 ≤ distance.toNat + stride.natAbs by omega]
    omega
  have hmul : (k : Int) * stride =
      if 0 < stride then (k : Int) * stride.natAbs else -((k : Int) * stride.natAbs) := by
    split
    · rw [Int.natCast_natAbs, abs_of_pos ‹_›]
    · rw [Int.natCast_natAbs, abs_of_nonpos (by omega)]
      ring
  have hsteps : 0 ≤ (k : Int) * stride.natAbs := by positivity
  unfold progression Before
  rw [hmul]
  dsimp only
  by_cases hup : 0 < stride
  · simp only [gt_iff_lt, hup, if_true]
    split
    · simp only [List.length_nil, Nat.not_lt_zero, false_iff]
      omega
    · rw [List.length_map, List.length_range, hcount _ (by omega)]
      omega
  · simp only [gt_iff_lt, hup, if_false]
    split
    · simp only [List.length_nil, Nat.not_lt_zero, false_iff]
      omega
    · rw [List.length_map, List.length_range, hcount _ (by omega)]
      omega

theorem isProgression_progression (hstride : stride ≠ 0)
    (hnonneg : ∀ k : Nat, Before stride limit (origin + k * stride) → 0 ≤ origin + k * stride) :
    IsProgression origin limit stride (progression origin limit stride) where
  lt_length_iff := lt_length_progression_iff hstride
  term k i hk := by
    obtain ⟨hlt, _⟩ := List.getElem?_eq_some_iff.1 hk
    have hterm := hnonneg k ((lt_length_progression_iff hstride k).1 hlt)
    unfold progression at hk
    dsimp only at hk
    generalize (if stride > 0 then limit - origin else origin - limit) = distance at hk
    split at hk
    · simp at hk
    · rw [List.getElem?_map] at hk
      obtain ⟨l, hl, rfl⟩ := Option.map_eq_some_iff.1 hk
      obtain ⟨_, hrange⟩ := List.getElem?_eq_some_iff.1 hl
      rw [List.getElem_range] at hrange
      subst hrange
      exact Int.toNat_of_nonneg hterm

/-! ## Bounds -/

/-- A negative bound counts from the end, once; then it is brought into the array. -/
def bound (length : Nat) (stride n : Int) : Int :=
  let n := if n < 0 then n + length else n
  if 0 < stride then max 0 (min length n) else max (-1) (min (length - 1) n)

def first (length : Nat) (stride : Int) : Option Int → Int
  | none => if 0 < stride then 0 else length - 1
  | some n => bound length stride n

def last (length : Nat) (stride : Int) : Option Int → Int
  | none => if 0 < stride then length else -1
  | some n => bound length stride n

/-- Both bounds stay inside the array, or just outside on the side where the slice ends. -/
theorem bounds_range (length : Nat) (stride : Int) (start stop : Option Int) :
    (0 < stride → 0 ≤ first length stride start ∧ last length stride stop ≤ length) ∧
      (stride < 0 → first length stride start < length ∧ -1 ≤ last length stride stop) := by
  constructor
  · intro h
    constructor
    · cases start <;> simp only [first, bound, if_pos h] <;> omega
    · cases stop <;> simp only [last, bound, if_pos h] <;> omega
  · intro h
    have h' : ¬ 0 < stride := by omega
    constructor
    · cases start <;> simp only [first, bound, if_neg h'] <;> omega
    · cases stop <;> simp only [last, bound, if_neg h'] <;> omega

/-- Every term before the end is the index of an element. -/
theorem term_range {length : Nat} {stride : Int} (hstride : stride ≠ 0) {start stop : Option Int}
    {k : Nat} (h : Before stride (last length stride stop) (first length stride start + k * stride)) :
    0 ≤ first length stride start + k * stride ∧
      first length stride start + k * stride < length := by
  obtain ⟨hup, hdown⟩ := bounds_range length stride start stop
  unfold Before at h
  split at h
  · have : 0 ≤ (k : Int) * stride := by positivity
    have := hup ‹_›
    omega
  · have : (k : Int) * stride ≤ 0 :=
      Int.mul_nonpos_of_nonneg_of_nonpos (Int.natCast_nonneg k) (by omega)
    have := hdown (by omega)
    omega

theorem sliceIndices_eq_progression (length : Nat) (start stop : Option Int) {stride : Option Int}
    (hstride : stride.getD 1 ≠ 0) :
    sliceIndices length start stop stride =
      .ok (progression (first length (stride.getD 1) start) (last length (stride.getD 1) stop)
        (stride.getD 1)) := by
  unfold sliceIndices
  generalize stride.getD 1 = stride at hstride
  dsimp only
  rw [if_neg hstride]
  have hstart (default : Int) (hdefault : -1 ≤ default ∧ default ≤ length ∧
      (default < 0 → length = 0)) (low high : Int) :
      clamp low high (sliceBound length (start.getD default)) =
        match start with
        | none => max low (min high default)
        | some n => max low (min high (if n < 0 then n + length else n)) := by
    cases start with
    | none =>
      simp only [Option.getD_none, clamp, sliceBound]
      split <;> omega
    | some n => rfl
  split
  · next h =>
    simp only [gt_iff_lt] at h
    rw [hstart 0 (by omega)]
    congr 2
    · cases start with
      | none =>
        simp only [first, if_pos h]
        omega
      | some n => simp only [first, bound, if_pos h]
    · cases stop with
      | none =>
        simp only [Option.getD_none, clamp, sliceBound, last, if_pos h]
        omega
      | some n => simp only [Option.getD_some, clamp, sliceBound, last, bound, if_pos h]
  · next h =>
    simp only [gt_iff_lt] at h
    rw [hstart (length - 1) (by omega)]
    congr 2
    · cases start with
      | none =>
        simp only [first, if_neg h]
        omega
      | some n => simp only [first, bound, if_neg h]
    · cases stop with
      | none =>
        simp only [Option.map_none, Option.getD_none, clamp, last, if_neg h]
        omega
      | some n =>
        simp only [Option.map_some, Option.getD_some, clamp, sliceBound, last, bound, if_neg h]

/-! ## The loop over signed words -/

/-- The sum of two signed words, if it is one. -/
def wordSum? (x y : Int64) : Option Int64 :=
  if isWord (x.toInt + y.toInt) then some (x + y) else none

theorem wordSum?_eq_some_iff {x y z : Int64} :
    wordSum? x y = some z ↔ z.toInt = x.toInt + y.toInt := by
  have hz := z.toInt_lt
  have hz' := z.le_toInt
  unfold wordSum? isWord
  simp only [Bool.and_eq_true, decide_eq_true_eq]
  constructor
  · intro h
    split at h
    · obtain rfl := Option.some_inj.1 h
      rw [Int64.toInt_add]
      exact Int.bmod_eq_of_le (by omega) (by omega)
    · cases h
  · intro h
    rw [if_pos (by omega), Option.some_inj, ← Int64.toInt_inj, Int64.toInt_add, h]
    exact Int.bmod_eq_of_le (by omega) (by omega)

theorem exists_wordSum? {x y : Int64} (h : -2 ^ 63 ≤ x.toInt + y.toInt)
    (h' : x.toInt + y.toInt < 2 ^ 63) :
    ∃ z, wordSum? x y = some z ∧ z.toInt = x.toInt + y.toInt :=
  ⟨.ofInt (x.toInt + y.toInt),
    wordSum?_eq_some_iff.2 (Int64.toInt_ofInt_of_le h h'), Int64.toInt_ofInt_of_le h h'⟩

/-- The words from `i` on as long as they are before the end. A sum that is no word is past it. -/
def walk (limit stride i : Int64) (hstride : stride ≠ 0) : List Nat :=
  if Before stride.toInt limit.toInt i.toInt then
    i.toUInt64.toNat ::
      match _h : wordSum? i stride with
      | some next => walk limit stride next hstride
      | none => []
  else []
termination_by (if 0 < stride.toInt then limit.toInt - i.toInt else i.toInt - limit.toInt).toNat
decreasing_by
  have hne : stride.toInt ≠ 0 := fun h => hstride (Int64.toInt_inj.1 h)
  have hsum := wordSum?_eq_some_iff.1 _h
  rename_i hbefore
  unfold Before at hbefore
  split at hbefore
  · rw [if_pos ‹_›, if_pos ‹_›]
    omega
  · rw [if_neg ‹_›, if_neg ‹_›]
    omega

/-- A negative bound counts from the end. -/
def wordBound? (length n : Int64) : Option Int64 :=
  if n < 0 then wordSum? n length else some n

def wordClamp (low high n : Int64) : Int64 :=
  if n < low then low else if high < n then high else n

def wordFirst? (length stride : Int64) (start : Option Int64) : Option Int64 :=
  if 0 < stride then (wordBound? length (start.getD 0)).map (wordClamp 0 length)
  else
    (wordSum? length (-1)).bind fun top =>
      (wordBound? length (start.getD top)).map (wordClamp (-1) top)

def wordLast? (length stride : Int64) (stop : Option Int64) : Option Int64 :=
  if 0 < stride then (wordBound? length (stop.getD length)).map (wordClamp 0 length)
  else
    (wordSum? length (-1)).bind fun top =>
      (stop.elim (some (-1)) (wordBound? length)).map (wordClamp (-1) top)

/-- The indices of a slice, computed on signed words. There is no result if a sum is no word, unless
it is the one behind the last index. -/
def wordIndices (length : Int64) (start stop stride : Option Int64) :
    Option (Except Fault (List Nat)) :=
  let stride := stride.getD 1
  if hstride : stride = 0 then some (.error .zeroStep)
  else
    (wordFirst? length stride start).bind fun first =>
      (wordLast? length stride stop).map fun last => .ok (walk last stride first hstride)

theorem toNat_toUInt64 {i : Int64} (h : 0 ≤ i.toInt) : (i.toUInt64.toNat : Int) = i.toInt := by
  rw [Int64.toNat_toUInt64_of_le (Int64.le_iff_toInt_le.2 h)]
  exact Int.toNat_of_nonneg h

/-- The loop lists the progression. It stops early only where the next term is no word, and so not
before the end either. -/
theorem isProgression_walk {limit stride i : Int64} (hstride : stride ≠ 0)
    (hnonneg : ∀ k : Nat, Before stride.toInt limit.toInt (i.toInt + k * stride.toInt) →
      0 ≤ i.toInt + k * stride.toInt) :
    IsProgression i.toInt limit.toInt stride.toInt (walk limit stride i hstride) := by
  induction i using walk.induct limit stride hstride with
  | case1 i hbefore ih =>
    have hi : 0 ≤ i.toInt := by simpa using hnonneg 0 (by simpa using hbefore)
    have hlater (k : Nat) : i.toInt + stride.toInt + k * stride.toInt =
        i.toInt + (k + 1 : Nat) * stride.toInt := by
      push_cast
      ring
    rw [walk, if_pos hbefore, ← toNat_toUInt64 hi]
    refine .cons (by rwa [toNat_toUInt64 hi]) ?_
    rw [toNat_toUInt64 hi]
    split
    · next next hsum =>
      rw [← wordSum?_eq_some_iff.1 hsum]
      refine ih next hsum fun k hk => ?_
      rw [wordSum?_eq_some_iff.1 hsum, hlater] at hk ⊢
      exact hnonneg (k + 1) hk
    · next hsum =>
      refine .nil fun hnext => ?_
      have hlimit := limit.toInt_lt
      have hlimit' := limit.le_toInt
      have hword : ¬ (-2 ^ 63 ≤ i.toInt + stride.toInt ∧ i.toInt + stride.toInt < 2 ^ 63) := by
        rintro ⟨h, h'⟩
        obtain ⟨z, hz, _⟩ := exists_wordSum? h h'
        rw [hsum] at hz
        cases hz
      have hlt := i.toInt_lt
      unfold Before at hnext
      split at hnext <;> omega
  | case2 i hdone =>
    rw [walk, if_neg hdone]
    exact .nil hdone

theorem exists_wordBound? {length : Int64} (hlength : 0 ≤ length.toInt) (n : Int64) :
    ∃ w, wordBound? length n = some w ∧
      w.toInt = if n.toInt < 0 then n.toInt + length.toInt else n.toInt := by
  unfold wordBound?
  by_cases hn : n < 0
  · have hn' : n.toInt < 0 := Int64.lt_iff_toInt_lt.1 hn
    have hle := n.le_toInt
    have hlt := length.toInt_lt
    rw [if_pos hn, if_pos hn']
    exact exists_wordSum? (by omega) (by omega)
  · have hn' : ¬ n.toInt < 0 := fun h => hn (Int64.lt_iff_toInt_lt.2 h)
    rw [if_neg hn, if_neg hn']
    exact ⟨n, rfl, rfl⟩

theorem toInt_wordClamp {low high : Int64} (h : low.toInt ≤ high.toInt) (n : Int64) :
    (wordClamp low high n).toInt = max low.toInt (min high.toInt n.toInt) := by
  unfold wordClamp
  simp only [Int64.lt_iff_toInt_lt]
  split
  · omega
  · split <;> omega

section

variable {length : Nat} {word : Int64} (hword : word.toInt = length)
include hword

theorem exists_wordTop : ∃ top, wordSum? word (-1) = some top ∧ top.toInt = length - 1 := by
  have hminus : (-1 : Int64).toInt = -1 := rfl
  have hlt := word.toInt_lt
  obtain ⟨top, htop, htop'⟩ := exists_wordSum? (x := word) (y := -1) (by omega) (by omega)
  exact ⟨top, htop, by omega⟩

theorem exists_wordFirst? (stride : Int64) (start : Option Int64) :
    ∃ i, wordFirst? word stride start = some i ∧
      i.toInt = first length stride.toInt (start.map (·.toInt)) := by
  have hlength : 0 ≤ word.toInt := hword ▸ Int.natCast_nonneg _
  have hzero : (0 : Int64).toInt = 0 := rfl
  have hminus : (-1 : Int64).toInt = -1 := rfl
  unfold wordFirst?
  by_cases hup : 0 < stride
  · have hup' : 0 < stride.toInt := Int64.lt_iff_toInt_lt.1 hup
    obtain ⟨n, hn, hn'⟩ := exists_wordBound? hlength (start.getD 0)
    refine ⟨_, by rw [if_pos hup, hn, Option.map_some], ?_⟩
    rw [toInt_wordClamp (by omega), hn', hword]
    cases start with
    | none =>
      simp only [Option.getD_none, Option.map_none, first, if_pos hup']
      omega
    | some n => simp only [Option.getD_some, Option.map_some, first, bound, if_pos hup', hzero]
  · have hup' : ¬ 0 < stride.toInt := fun h => hup (Int64.lt_iff_toInt_lt.2 h)
    obtain ⟨top, htop, htop'⟩ := exists_wordTop hword
    obtain ⟨n, hn, hn'⟩ := exists_wordBound? hlength (start.getD top)
    refine ⟨_, by rw [if_neg hup, htop, Option.bind_some, hn, Option.map_some], ?_⟩
    rw [toInt_wordClamp (by omega), hn', hword, htop']
    cases start with
    | none =>
      simp only [Option.getD_none, Option.map_none, first, if_neg hup', htop']
      omega
    | some n => simp only [Option.getD_some, Option.map_some, first, bound, if_neg hup', hminus]

theorem exists_wordLast? (stride : Int64) (stop : Option Int64) :
    ∃ i, wordLast? word stride stop = some i ∧
      i.toInt = last length stride.toInt (stop.map (·.toInt)) := by
  have hlength : 0 ≤ word.toInt := hword ▸ Int.natCast_nonneg _
  have hzero : (0 : Int64).toInt = 0 := rfl
  have hminus : (-1 : Int64).toInt = -1 := rfl
  unfold wordLast?
  by_cases hup : 0 < stride
  · have hup' : 0 < stride.toInt := Int64.lt_iff_toInt_lt.1 hup
    obtain ⟨n, hn, hn'⟩ := exists_wordBound? hlength (stop.getD word)
    refine ⟨_, by rw [if_pos hup, hn, Option.map_some], ?_⟩
    rw [toInt_wordClamp (by omega), hn', hword]
    cases stop with
    | none =>
      simp only [Option.getD_none, Option.map_none, last, if_pos hup']
      omega
    | some n => simp only [Option.getD_some, Option.map_some, last, bound, if_pos hup', hzero]
  · have hup' : ¬ 0 < stride.toInt := fun h => hup (Int64.lt_iff_toInt_lt.2 h)
    obtain ⟨top, htop, htop'⟩ := exists_wordTop hword
    rw [if_neg hup, htop, Option.bind_some]
    cases stop with
    | none =>
      refine ⟨_, rfl, ?_⟩
      rw [toInt_wordClamp (by omega)]
      simp only [Option.map_none, last, if_neg hup']
      omega
    | some n =>
      obtain ⟨m, hm, hm'⟩ := exists_wordBound? hlength n
      refine ⟨_, by rw [Option.elim_some, hm, Option.map_some], ?_⟩
      rw [toInt_wordClamp (by omega), hm', hword, htop']
      simp only [Option.map_some, last, bound, if_neg hup', hminus]

end

/-- On words no sum overflows, and the indices are the same. -/
theorem wordIndices_eq {length : Nat} (hlength : length < 2 ^ 63)
    (start stop stride : Option Int64) :
    wordIndices (.ofNat length) start stop stride =
      some (sliceIndices length (start.map (·.toInt)) (stop.map (·.toInt))
        (stride.map (·.toInt))) := by
  have hword : (Int64.ofNat length).toInt = length := Int64.toInt_ofNat_of_lt hlength
  have hget : (stride.map (·.toInt)).getD 1 = (stride.getD 1).toInt := by cases stride <;> rfl
  unfold wordIndices
  dsimp only
  by_cases hstride : stride.getD 1 = 0
  · rw [dif_pos hstride, sliceIndices, hget, hstride]
    rfl
  · have hne : (stride.getD 1).toInt ≠ 0 := fun h => hstride (Int64.toInt_inj.1 h)
    obtain ⟨i, hi, hi'⟩ := exists_wordFirst? hword (stride.getD 1) start
    obtain ⟨j, hj, hj'⟩ := exists_wordLast? hword (stride.getD 1) stop
    have hwalk := @isProgression_walk j _ i hstride
    rw [hi', hj'] at hwalk
    rw [dif_neg hstride, sliceIndices_eq_progression _ _ _ (hget ▸ hne), hget, hi, hj,
      Option.bind_some, Option.map_some]
    have hlist := (hwalk fun k hk => (term_range hne hk).1).unique
      (isProgression_progression hne fun k hk => (term_range hne hk).1)
    rw [hlist]

end Slice

/-- A slice with stride zero is an error. With any other stride its indices are the terms of the
progression from its first index that are before its last one; they are indices of elements and go
strictly up or down. For every array with a signed word for its length, the loop over signed words has
the same result. -/
theorem sliceIndices_exact :
    (∀ (length : Nat) (start stop : Option Int),
      sliceIndices length start stop (some 0) = .error .zeroStep) ∧
    ∀ length : Nat, length < 2 ^ 63 → ∀ start stop stride : Option Int64,
      Slice.wordIndices (.ofNat length) start stop stride =
        some (sliceIndices length (start.map (·.toInt)) (stop.map (·.toInt))
          (stride.map (·.toInt))) ∧
      (stride ≠ some 0 → ∃ indices,
        sliceIndices length (start.map (·.toInt)) (stop.map (·.toInt)) (stride.map (·.toInt)) =
          .ok indices ∧
        Slice.IsProgression (Slice.first length (stride.getD 1).toInt (start.map (·.toInt)))
          (Slice.last length (stride.getD 1).toInt (stop.map (·.toInt))) (stride.getD 1).toInt
          indices ∧
        (∀ i ∈ indices, i < length) ∧
        (indices.Pairwise fun i j => if 0 < (stride.getD 1).toInt then i < j else j < i) ∧
        indices.Nodup) := by
  refine ⟨fun _ _ _ => rfl, fun length hlength start stop stride =>
    ⟨Slice.wordIndices_eq hlength start stop stride, fun hstride => ?_⟩⟩
  have hget : (stride.map (·.toInt)).getD 1 = (stride.getD 1).toInt := by cases stride <;> rfl
  have hne : (stride.getD 1).toInt ≠ 0 := by
    intro h
    cases stride with
    | none => cases h
    | some n => exact hstride (congrArg some (Int64.toInt_inj.1 h))
  have hslice := Slice.sliceIndices_eq_progression length (start.map (·.toInt))
    (stop.map (·.toInt)) (hget ▸ hne)
  rw [hget] at hslice
  have hprogression := Slice.isProgression_progression hne fun k hk =>
    (@Slice.term_range length _ hne (start.map (·.toInt)) (stop.map (·.toInt)) k hk).1
  refine ⟨_, hslice, hprogression, fun i hi => ?_, hprogression.pairwise hne,
    hprogression.nodup hne⟩
  obtain ⟨k, hterm, hbefore⟩ := hprogression.mem_iff.1 hi
  have := (Slice.term_range hne (hterm ▸ hbefore)).2
  omega

/-- From the last but one element down, in steps as long as they can be. -/
theorem sliceIndices_exact_leastStride :
    5 < 2 ^ 63 ∧ some Int64.minValue ≠ some 0 ∧
      sliceIndices 5 (some (-2)) none (some Int64.minValue.toInt) = .ok [3] ∧
      Slice.wordIndices (.ofNat 5) (some (-2)) none (some Int64.minValue) = some (.ok [3]) ∧
      Slice.IsProgression 3 (-1) Int64.minValue.toInt [3] := by
  have hslice : sliceIndices 5 (some (-2)) none (some Int64.minValue.toInt) = .ok [3] := rfl
  obtain ⟨hword, hexact⟩ :=
    sliceIndices_exact.2 5 (by decide) (some (-2)) none (some Int64.minValue)
  obtain ⟨indices, hindices, hprogression, _⟩ := hexact (by decide)
  obtain rfl : [3] = indices := Except.ok.inj (hslice.symm.trans hindices)
  exact ⟨by decide, by decide, hslice, hword.trans (congrArg some hslice), hprogression⟩

end PolicyDecision
