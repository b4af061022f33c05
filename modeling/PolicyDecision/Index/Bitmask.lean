/-!
# PolicyDecision.Index.Bitmask

Sets of indices below a fixed length, kept as bits in words of 64.

* `Bitmask.set`, `Bitmask.clear`: one bit; an index beyond the length changes nothing.
* `Bitmask.test_set`, `Bitmask.test_clear`: all other bits stay.
* `Bitmask.ext`: the bits that no index reaches are zero, so masks of one length with the same
  members are equal.
-/

namespace PolicyDecision

/-- A bit of a list of words. -/
def wordBit (words : List (BitVec 64)) (index : Nat) : Bool :=
  (words[index / 64]?.getD 0).getLsbD (index % 64)

/-- Change the word that holds a bit. -/
def changeWord (words : List (BitVec 64)) (index : Nat) (f : BitVec 64 → BitVec 64 → BitVec 64) :
    List (BitVec 64) :=
  words.modify (index / 64) fun w => f w (1#64 <<< (index % 64))

theorem getLsbD_one_shift (i j : Nat) (hj : j < 64) :
    (1#64 <<< i).getLsbD j = decide (i = j) := by
  simp only [BitVec.getLsbD_shiftLeft, BitVec.getLsbD_one]
  by_cases h : i = j
  · subst h; simp [hj]
  · have : ¬ (j - i = 0 ∧ ¬ j < i) := by omega
    simp [h]
    omega

theorem index_eq_iff (i j : Nat) : i = j ↔ i / 64 = j / 64 ∧ i % 64 = j % 64 := by omega

theorem wordBit_changeWord {words : List (BitVec 64)} {index : Nat}
    {f : BitVec 64 → BitVec 64 → BitVec 64} (h : index / 64 < words.length) (i : Nat) :
    wordBit (changeWord words index f) i =
      if index / 64 = i / 64 then
        (f (words[i / 64]?.getD 0) (1#64 <<< (index % 64))).getLsbD (i % 64)
      else wordBit words i := by
  simp only [wordBit, changeWord, List.getElem?_modify]
  split
  · rename_i e
    rw [← e, List.getElem?_eq_getElem h]
    simp
  · simp

structure Bitmask where
  length : Nat
  words : List (BitVec 64)
  sized : words.length = (length + 63) / 64
  unused : ∀ i, length ≤ i → wordBit words i = false

namespace Bitmask

theorem word_lt {m : Bitmask} {i : Nat} (h : i < m.length) : i / 64 < m.words.length := by
  have := m.sized
  omega

/-- No bit is set. -/
def zeros (length : Nat) : Bitmask where
  length := length
  words := List.replicate ((length + 63) / 64) 0
  sized := by simp
  unused i _ := by
    simp only [wordBit, List.getElem?_replicate]
    split <;> simp

instance : Inhabited Bitmask := ⟨zeros 0⟩

def test (m : Bitmask) (index : Nat) : Bool := index < m.length && wordBit m.words index

theorem wordBit_set {words : List (BitVec 64)} {index : Nat} (h : index / 64 < words.length)
    (i : Nat) : wordBit (changeWord words index (· ||| ·)) i = (decide (index = i) || wordBit words i) := by
  rw [wordBit_changeWord h]
  split
  · rename_i e
    rw [BitVec.getLsbD_or, getLsbD_one_shift _ _ (Nat.mod_lt _ (by decide)), Bool.or_comm]
    simp only [wordBit, index_eq_iff index i, e, true_and]
  · rename_i e
    have : index ≠ i := fun h => e (h ▸ rfl)
    simp [this]

theorem wordBit_clear {words : List (BitVec 64)} {index : Nat} (h : index / 64 < words.length)
    (i : Nat) :
    wordBit (changeWord words index fun w b => w &&& ~~~b) i =
      (!decide (index = i) && wordBit words i) := by
  rw [wordBit_changeWord h]
  split
  · rename_i e
    rw [BitVec.getLsbD_and, BitVec.getLsbD_not,
      getLsbD_one_shift _ _ (Nat.mod_lt _ (by decide)), Bool.and_comm]
    simp only [wordBit, index_eq_iff index i, e, true_and, Nat.mod_lt i (show 0 < 64 by decide),
      decide_true, Bool.true_and]
  · rename_i e
    have : index ≠ i := fun h => e (h ▸ rfl)
    simp [this]

def set (m : Bitmask) (index : Nat) : Bitmask :=
  if h : index < m.length then
    { length := m.length
      words := changeWord m.words index (· ||| ·)
      sized := by simp [changeWord, m.sized]
      unused := fun i hi => by
        rw [wordBit_set (word_lt h), m.unused i hi]
        simp; omega }
  else m

def clear (m : Bitmask) (index : Nat) : Bitmask :=
  if h : index < m.length then
    { length := m.length
      words := changeWord m.words index fun w b => w &&& ~~~b
      sized := by simp [changeWord, m.sized]
      unused := fun i hi => by
        rw [wordBit_clear (word_lt h), m.unused i hi, Bool.and_false] }
  else m

/-- All bits are set. -/
def full (length : Nat) : Bitmask := (List.range length).foldl set (zeros length)

/-- The set bits of a word. -/
def population (w : BitVec 64) : Nat := (List.range 64).countP fun i => w.getLsbD i

def count (m : Bitmask) : Nat := m.words.foldr (fun w n => population w + n) 0

def isZero (m : Bitmask) : Bool := m.words.all (· == 0)

/-- The members in ascending order. -/
def members (m : Bitmask) : List Nat := (List.range m.length).filter m.test

def isEmpty (m : Bitmask) : Bool := m.length == 0

@[simp]
theorem length_set (m : Bitmask) (index : Nat) : (m.set index).length = m.length := by
  unfold set
  split <;> rfl

@[simp]
theorem length_clear (m : Bitmask) (index : Nat) : (m.clear index).length = m.length := by
  unfold clear
  split <;> rfl

theorem length_foldl_set (indices : List Nat) (m : Bitmask) :
    (indices.foldl set m).length = m.length := by
  induction indices generalizing m with
  | nil => rfl
  | cons index rest ih => rw [List.foldl_cons, ih, length_set]

@[simp]
theorem test_zeros (length i : Nat) : (zeros length).test i = false := by
  simp only [test, zeros, wordBit, List.getElem?_replicate]
  split <;> simp

theorem test_set (m : Bitmask) (index i : Nat) :
    (m.set index).test i = (decide (index = i ∧ i < m.length) || m.test i) := by
  unfold set
  split
  · rename_i h
    simp only [test, wordBit_set (word_lt h)]
    by_cases hi : index = i <;> simp_all
  · rename_i h
    have : ¬ (index = i ∧ i < m.length) := by omega
    simp [this]

theorem test_clear (m : Bitmask) (index i : Nat) :
    (m.clear index).test i = (!decide (index = i) && m.test i) := by
  unfold clear
  split
  · rename_i h
    simp only [test, wordBit_clear (word_lt h)]
    by_cases hi : index = i <;> simp_all
  · rename_i h
    by_cases hi : index = i
    · subst hi
      simp [test, h]
    · simp [hi]

theorem test_foldl_set (indices : List Nat) (m : Bitmask) (i : Nat) :
    (indices.foldl set m).test i = (m.test i || decide (i ∈ indices ∧ i < m.length)) := by
  induction indices generalizing m with
  | nil => simp
  | cons index rest ih =>
    rw [List.foldl_cons, ih, test_set, length_set]
    by_cases hi : index = i
    · subst hi
      by_cases hlt : index < m.length <;> simp [hlt]
    · have hne : ¬ i = index := fun e => hi e.symm
      simp [hi, hne]

theorem test_full (length i : Nat) : (full length).test i = decide (i < length) := by
  rw [full, test_foldl_set, test_zeros]
  simp [zeros]

theorem wordBit_eq_test (m : Bitmask) (i : Nat) : wordBit m.words i = m.test i := by
  by_cases h : i < m.length
  · simp [test, h]
  · simp [test, h, m.unused i (Nat.le_of_not_lt h)]

theorem words_eq {v w : List (BitVec 64)} (hl : v.length = w.length)
    (h : ∀ i, wordBit v i = wordBit w i) : v = w := by
  refine List.ext_getElem hl fun k hv hw => BitVec.eq_of_getLsbD_eq fun i hi => ?_
  have := h (64 * k + i)
  have hk : (64 * k + i) / 64 = k := by omega
  have hr : (64 * k + i) % 64 = i := by omega
  simpa [wordBit, hk, hr, hv, hw] using this

theorem ext {m n : Bitmask} (hl : m.length = n.length) (h : ∀ i, m.test i = n.test i) : m = n := by
  have hw : m.words = n.words :=
    words_eq (by rw [m.sized, n.sized, hl]) fun i => by rw [wordBit_eq_test, wordBit_eq_test, h]
  cases m
  cases n
  cases hl
  cases hw
  rfl

theorem foldr_population (words : List (BitVec 64)) :
    words.foldr (fun w n => population w + n) 0 = (List.range (64 * words.length)).countP (wordBit words) := by
  induction words with
  | nil => rfl
  | cons w rest ih =>
    have hlow (i : Nat) (hi : i < 64) : wordBit (w :: rest) i = w.getLsbD i := by
      have h0 : i / 64 = 0 := by omega
      have hm : i % 64 = i := by omega
      simp [wordBit, h0, hm]
    have hhigh (i : Nat) : wordBit (w :: rest) (64 + i) = wordBit rest i := by
      have h1 : (64 + i) / 64 = i / 64 + 1 := by omega
      have hm : (64 + i) % 64 = i % 64 := by omega
      simp [wordBit, h1, hm]
    have hlen : 64 * (w :: rest).length = 64 + 64 * rest.length := by
      rw [List.length_cons]
      omega
    have hfirst : (List.range 64).countP (wordBit (w :: rest)) = population w :=
      List.countP_congr fun i hi => by rw [hlow i (List.mem_range.1 hi)]
    have hrest : (List.range (64 * rest.length)).countP (wordBit (w :: rest) ∘ (64 + ·)) =
        (List.range (64 * rest.length)).countP (wordBit rest) :=
      List.countP_congr fun i _ => by rw [Function.comp_apply, hhigh]
    rw [List.foldr_cons, ih, hlen, List.range_add, List.countP_append,
      List.countP_map, hfirst, hrest]

/-- The words hold as many bits as there are members. -/
theorem count_eq_countP (m : Bitmask) : m.count = (List.range m.length).countP m.test := by
  obtain ⟨extra, hextra⟩ : ∃ extra, 64 * m.words.length = m.length + extra :=
    ⟨64 * m.words.length - m.length, by have := m.sized; omega⟩
  have hbits : wordBit m.words = m.test := funext m.wordBit_eq_test
  have hunused : (List.range extra).countP (m.test ∘ (m.length + ·)) = 0 :=
    List.countP_eq_zero.2 fun i _ => by simp [test, m.unused _ (Nat.le_add_right _ i)]
  rw [count, foldr_population, hextra, hbits, List.range_add, List.countP_append,
    List.countP_map, hunused, Nat.add_zero]

instance : DecidableEq Bitmask := fun m n =>
  decidable_of_iff (m.length = n.length ∧ m.words = n.words)
    ⟨fun h => by cases m; cases n; cases h.1; cases h.2; rfl, fun h => h ▸ ⟨rfl, rfl⟩⟩

end Bitmask
end PolicyDecision
