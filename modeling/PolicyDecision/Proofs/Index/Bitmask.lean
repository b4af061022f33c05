import Mathlib.Data.Finset.Sort
import PolicyDecision.Index.Bitmask

/-!
# PolicyDecision.Proofs.Index.Bitmask

Masks as sets of indices.

A mask is read by testing bits, by counting, by listing its members and by comparing it with another
one. Counting and comparing read whole words, so they see the bits that no index reaches.

* `Bitmask.Represents`: every reading of a mask is that of one finite set.
* `Bitmask.represents_members`: the set of the members of a mask.
* `Bitmask.test_apply`: one change, and all other bits as before.
* `Bitmask.Leaves`: what a sequence of changes leaves in a set: the last change of an index decides.
* `Bitmask.test_run`: the changes one after the other.
* `Bitmask.changes_exact`: the masks that can be made.
-/

namespace PolicyDecision

namespace Bitmask

/-! ## Readings -/

structure Represents (m : Bitmask) (s : Finset Nat) : Prop where
  test : ∀ i, m.test i = true ↔ i ∈ s
  count : m.count = s.card
  members : m.members = s.sort (· ≤ ·)
  isZero : m.isZero = true ↔ s = ∅

variable {m : Bitmask} {i : Nat}

theorem mem_members : i ∈ m.members ↔ m.test i = true := by
  rw [members, List.mem_filter, List.mem_range]
  refine ⟨And.right, fun h => ⟨?_, h⟩⟩
  simp only [test, Bool.and_eq_true, decide_eq_true_eq] at h
  exact h.1

theorem members_ascending (m : Bitmask) : m.members.Pairwise (· < ·) :=
  List.pairwise_lt_range.filter _

theorem count_eq_length (m : Bitmask) : m.count = m.members.length := by
  rw [count_eq_countP, List.countP_eq_length_filter]
  rfl

/-- All words are zero if no index is a member: the bits beyond the length are. -/
theorem isZero_iff : m.isZero = true ↔ ∀ i, m.test i = false := by
  simp only [isZero, List.all_eq_true, beq_iff_eq]
  constructor
  · intro h i
    rw [← wordBit_eq_test, wordBit]
    cases hw : m.words[i / 64]? with
    | none => simp
    | some w => simp [h w (List.mem_of_getElem? hw)]
  · intro h
    have hzeros : m = zeros m.length := ext rfl fun i => by rw [h, test_zeros]
    rw [hzeros]
    exact fun w hw => List.eq_of_mem_replicate hw

theorem represents_members (m : Bitmask) : m.Represents m.members.toFinset where
  test i := by rw [List.mem_toFinset, mem_members]
  count := by
    rw [List.toFinset_card_of_nodup (m.members_ascending.imp Nat.ne_of_lt), count_eq_length]
  members := by
    have hsorted : m.members.Pairwise (· ≤ ·) := m.members_ascending.imp Nat.le_of_lt
    exact ((List.toFinset_sort _ (m.members_ascending.imp Nat.ne_of_lt)).2 hsorted).symm
  isZero := by
    rw [isZero_iff, List.toFinset_eq_empty_iff, List.eq_nil_iff_forall_not_mem]
    simp [mem_members]

theorem eq_iff {n : Bitmask} : m = n ↔ m.length = n.length ∧ ∀ i, m.test i = n.test i := by
  constructor
  · rintro rfl
    exact ⟨rfl, fun _ => rfl⟩
  · rintro ⟨hlength, htest⟩
    exact ext hlength htest

/-! ## Changes -/

inductive Change where
  | set (index : Nat)
  | clear (index : Nat)

def Change.index : Change → Nat
  | set index => index
  | clear index => index

/-- Whether the index is in the set after the change. -/
def Change.isSet : Change → Bool
  | set _ => true
  | clear _ => false

def apply (m : Bitmask) : Change → Bitmask
  | .set index => m.set index
  | .clear index => m.clear index

def run (m : Bitmask) (changes : List Change) : Bitmask := changes.foldl apply m

/-- The mask in which all bits are alike. -/
def filled (value : Bool) (length : Nat) : Bitmask := if value then full length else zeros length

/-- No change is of this index. -/
def Untouched (changes : List Change) (i : Nat) : Prop := ∀ c ∈ changes, c.index ≠ i

/-- The last change of this index puts it in. -/
def SetLast (changes : List Change) (i : Nat) : Prop :=
  ∃ before after, changes = before ++ .set i :: after ∧ Untouched after i

/-- Whether an index is in a set after some changes, if its membership was `value` before. -/
def Leaves (value : Bool) (changes : List Change) (i : Nat) : Prop :=
  SetLast changes i ∨ value = true ∧ Untouched changes i

@[simp]
theorem length_apply (m : Bitmask) (c : Change) : (m.apply c).length = m.length := by
  cases c with
  | set index => exact length_set m index
  | clear index => exact length_clear m index

@[simp]
theorem length_run (m : Bitmask) (changes : List Change) : (m.run changes).length = m.length := by
  induction changes generalizing m with
  | nil => rfl
  | cons c rest ih => exact (ih (m.apply c)).trans (length_apply m c)

@[simp]
theorem length_filled (value : Bool) (length : Nat) : (filled value length).length = length := by
  cases value with
  | false => rfl
  | true => exact length_foldl_set _ _

theorem test_filled (value : Bool) (length i : Nat) :
    (filled value length).test i = (value && decide (i < length)) := by
  cases value with
  | false => exact test_zeros length i
  | true => exact test_full length i

/-- A change of an index beyond the length puts nothing in. -/
theorem test_apply (c : Change) (hi : i < m.length) :
    (m.apply c).test i = if c.index = i then c.isSet else m.test i := by
  cases c with
  | set index =>
    rw [apply, test_set]
    by_cases h : index = i <;> simp [Change.index, Change.isSet, h, hi]
  | clear index =>
    rw [apply, test_clear]
    by_cases h : index = i <;> simp [Change.index, Change.isSet, h]

theorem eq_set_iff {c : Change} : c = .set i ↔ c.index = i ∧ c.isSet = true := by
  cases c <;> simp [Change.index, Change.isSet]

theorem untouched_cons {c : Change} {rest : List Change} :
    Untouched (c :: rest) i ↔ c.index ≠ i ∧ Untouched rest i :=
  List.forall_mem_cons

theorem setLast_cons {c : Change} {rest : List Change} :
    SetLast (c :: rest) i ↔ c = .set i ∧ Untouched rest i ∨ SetLast rest i := by
  constructor
  · rintro ⟨before, after, he, hafter⟩
    cases before with
    | nil =>
      obtain ⟨rfl, rfl⟩ := List.cons.inj he
      exact .inl ⟨rfl, hafter⟩
    | cons d before =>
      obtain ⟨rfl, rfl⟩ := List.cons.inj he
      exact .inr ⟨before, after, rfl, hafter⟩
  · rintro (⟨rfl, hrest⟩ | ⟨before, after, rfl, hafter⟩)
    · exact ⟨[], rest, rfl, hrest⟩
    · exact ⟨c :: before, after, rfl, hafter⟩

theorem leaves_nil {value : Bool} : Leaves value [] i ↔ value = true := by
  simp [Leaves, SetLast, Untouched]

/-- After its first change an index is in the set as that change says, until the next one. -/
theorem leaves_cons {value : Bool} {c : Change} {rest : List Change} :
    Leaves value (c :: rest) i ↔ Leaves (if c.index = i then c.isSet else value) rest i := by
  rw [Leaves, Leaves, setLast_cons, untouched_cons, eq_set_iff]
  by_cases h : c.index = i
  · simp only [h, if_true]
    tauto
  · simp only [h, if_false]
    tauto

theorem test_run (changes : List Change) (hi : i < m.length) :
    (m.run changes).test i = true ↔ Leaves (m.test i) changes i := by
  induction changes generalizing m with
  | nil => exact leaves_nil.symm
  | cons c rest ih =>
    rw [leaves_cons, ← test_apply c hi]
    exact ih ((length_apply m c).symm ▸ hi)

theorem test_run_filled {value : Bool} {length : Nat} {changes : List Change} :
    ((filled value length).run changes).test i = true ↔ i < length ∧ Leaves value changes i := by
  by_cases hi : i < length
  · have hfilled : (filled value length).test i = value := by simp [test_filled, hi]
    rw [test_run changes (by simpa using hi), hfilled]
    exact (and_iff_right hi).symm
  · simp [test, hi]

/-- A mask that was empty or full and then changed holds the indices below its length whose last
change put them in, and those that no change touched if it was full. Every reading of it is that of
this set; and two masks of one length, whatever made them, are equal if their tests agree. -/
theorem changes_exact (value : Bool) (length : Nat) (changes : List Change) :
    let m := (filled value length).run changes
    m.length = length ∧
    (∀ i, m.test i = true ↔ i < length ∧ Leaves value changes i) ∧
    (∃ s : Finset Nat, (∀ i, i ∈ s ↔ i < length ∧ Leaves value changes i) ∧ m.Represents s) ∧
    ∀ (value' : Bool) (changes' : List Change),
      m = (filled value' length).run changes' ↔
        ∀ i, m.test i = ((filled value' length).run changes').test i := by
  intro m
  have hrepresents := m.represents_members
  refine ⟨by simp [m], fun i => test_run_filled, ⟨_, fun i => ?_, hrepresents⟩, ?_⟩
  · rw [← hrepresents.test, test_run_filled]
  · intro value' changes'
    have hlength : m.length = ((filled value' length).run changes').length := by simp [m]
    exact eq_iff.trans (and_iff_right hlength)

example : ((filled false 130).run [.set 0, .set 64, .set 129, .clear 64]).members = [0, 129] := by
  decide +kernel

end Bitmask
end PolicyDecision
