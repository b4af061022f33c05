import Mathlib.Data.List.Perm.Basic
import PolicyDecision.Proofs.Decimal.Rounding
import PolicyDecision.Proofs.Json.Update
import PolicyDecision.Proofs.Syntax.Signature

/-!
# PolicyDecision.Proofs.Json.SameValue

Equality of JSON values in which numbers compare by value.

Two values are the same if their nodes are and if they have the same children at the same places. So
the equality is reflexive and symmetric and does not see the order of fields. It is transitive as
long as no double stands between two words: words compare exactly, everything else by its double,
and beyond `2^53` several words have one double.

* `Number.sameValue_iff`: when two numbers are the same.
* `Json.sameValue_iff`: node and children.
* `Json.sameValue_refl`, `Json.sameValue_symm`, `Json.sameValue_of_sortKeys_eq`.
* `Json.sameValue_transitive_iff`: the sets of numbers over which the equality is transitive.
-/

namespace PolicyDecision

/-! ## Numbers -/

namespace Number

/-- Infinities and NaN are no JSON numbers. -/
def IsFinite : Number → Prop
  | .integer _ _ => True
  | .float value => value.isFinite = true

def IsWord (n : Number) : Prop := n.int64?.isSome = true

/-- What the double of a number stands for. -/
def rounded (n : Number) : ℚ := (Double.value? n.toFloat).getD 0

variable {a b c : Number}

theorem value?_toFloat (h : a.IsFinite) : Double.value? a.toFloat = some a.rounded := by
  cases a with
  | integer value held =>
    have hvalue := Double.value?_ofInt (by omega : value.natAbs ≤ 2 ^ 64)
    rw [rounded, toFloat, hvalue, Option.getD_some]
  | float value =>
    obtain ⟨q, hq⟩ := Double.exists_value h
    rw [rounded, toFloat, hq, Option.getD_some]

theorem eq_of_int64?_eq {x : Int} (ha : a.int64? = some x) (hb : b.int64? = some x) : a = b := by
  cases a with
  | float value => cases ha
  | integer value held =>
    cases b with
    | float value' => cases hb
    | integer value' held' =>
      rw [int64?] at ha hb
      split at ha
      · split at hb
        · cases ha
          cases hb
          rfl
        · cases hb
      · cases ha

/-- Two numbers are the same if they are equal, or if they have one double and are not both
words. -/
theorem sameValue_iff (ha : a.IsFinite) (hb : b.IsFinite) :
    a.sameValue b = true ↔ a = b ∨ a.rounded = b.rounded ∧ ¬ (a.IsWord ∧ b.IsWord) := by
  have hdoubles := Double.beq_iff (value?_toFloat ha) (value?_toFloat hb)
  unfold sameValue IsWord
  cases hx : a.int64? with
  | none =>
    simp only [hdoubles]
    refine ⟨fun h => .inr ⟨h, nofun⟩, ?_⟩
    rintro (rfl | h)
    · rfl
    · exact h.1
  | some x =>
    cases hy : b.int64? with
    | none =>
      simp only [hdoubles]
      refine ⟨fun h => .inr ⟨h, nofun⟩, ?_⟩
      rintro (rfl | h)
      · rfl
      · exact h.1
    | some y =>
      rw [beq_iff_eq]
      constructor
      · rintro rfl
        exact .inl (eq_of_int64?_eq hx hy)
      · rintro (rfl | h)
        · exact Option.some_inj.1 (hx.symm.trans hy)
        · exact absurd ⟨rfl, rfl⟩ h.2

theorem sameValue_refl (ha : a.IsFinite) : a.sameValue a = true := (sameValue_iff ha ha).2 (.inl rfl)

theorem sameValue_symm (ha : a.IsFinite) (hb : b.IsFinite) : a.sameValue b = b.sameValue a := by
  rw [Bool.eq_iff_iff, sameValue_iff ha hb, sameValue_iff hb ha, eq_comm, and_comm (a := a.IsWord),
    eq_comm (a := a.rounded)]

/-- A number that is no word has the double of two different words. -/
def Confuses (S : Number → Prop) : Prop :=
  ∃ a b c, S a ∧ S b ∧ S c ∧ a.IsWord ∧ b.IsWord ∧ a ≠ b ∧ ¬ c.IsWord ∧ a.rounded = c.rounded ∧
    c.rounded = b.rounded

theorem sameValue_trans {S : Number → Prop} (hfinite : ∀ n, S n → n.IsFinite) (h : ¬ Confuses S)
    (ha : S a) (hb : S b) (hc : S c) (hab : a.sameValue b = true) (hbc : b.sameValue c = true) :
    a.sameValue c = true := by
  rw [sameValue_iff (hfinite a ha) (hfinite b hb)] at hab
  rw [sameValue_iff (hfinite b hb) (hfinite c hc)] at hbc
  rw [sameValue_iff (hfinite a ha) (hfinite c hc)]
  rcases hab with rfl | ⟨hab, hab'⟩
  · exact hbc
  rcases hbc with rfl | ⟨hbc, hbc'⟩
  · exact .inr ⟨hab, hab'⟩
  by_cases heq : a = c
  · exact .inl heq
  refine .inr ⟨hab.trans hbc, fun hwords => ?_⟩
  exact h ⟨a, c, b, ha, hc, hb, hwords.1, hwords.2, heq, fun hword => hab' ⟨hwords.1, hword⟩, hab, hbc⟩

end Number

namespace Json

/-! ## Children -/

abbrev Same (v w : Json) : Prop := v.sameValue w = true

/-- Whether two values are the same without regard to their children. -/
def sameNode : Json → Json → Bool
  | .null, .null => true
  | .bool a, .bool b => a == b
  | .number a, .number b => a.sameValue b
  | .string a, .string b => a == b
  | .array _, .array _ => true
  | .object _, .object _ => true
  | _, _ => false

theorem sameItems_iff (as bs : List Json) :
    sameItems as bs = true ↔ ∀ i : Nat, Option.Rel Same as[i]? bs[i]? := by
  induction as generalizing bs with
  | nil =>
    cases bs with
    | nil => exact ⟨fun _ _ => .none, fun _ => rfl⟩
    | cons b bs => exact ⟨nofun, fun h => nomatch h 0⟩
  | cons a as ih =>
    cases bs with
    | nil => exact ⟨nofun, fun h => nomatch h 0⟩
    | cons b bs =>
      rw [sameItems, Bool.and_eq_true, ih]
      constructor
      · rintro ⟨hfirst, hrest⟩ (_ | i)
        · exact .some hfirst
        · exact hrest i
      · exact fun h => ⟨(Option.rel_some_some (r := Same)).1 (h 0), fun i => h (i + 1)⟩

theorem sameFields_iff (as bs : List (String × Json)) :
    sameFields as bs = true ↔
      ∀ f ∈ as, ∃ w, bs.lookup f.1 = some w ∧ f.2.sameValue w = true := by
  induction as with
  | nil => simp [sameFields]
  | cons f as ih =>
    obtain ⟨k, v⟩ := f
    rw [sameFields, Bool.and_eq_true, ih, List.forall_mem_cons]
    refine and_congr_left fun _ => ?_
    cases bs.lookup k with
    | none => exact ⟨nofun, nofun⟩
    | some w => exact ⟨fun h => ⟨w, rfl, h⟩, fun ⟨_, hw, h⟩ => Option.some_inj.1 hw ▸ h⟩

theorem isSome_eq_of_rel {o o' : Option Json} (h : Option.Rel Same o o') : o.isSome = o'.isSome := by
  cases h <;> rfl

/-- Objects with distinct keys: as many fields, and each with a partner, means the same fields. -/
theorem sameObject_iff {as bs : List (String × Json)} (ha : (Entries.keys as).Nodup)
    (hb : (Entries.keys bs).Nodup) :
    (as.length == bs.length && sameFields as bs) = true ↔
      ∀ name, Option.Rel Same (as.lookup name) (bs.lookup name) := by
  rw [Bool.and_eq_true, beq_iff_eq, sameFields_iff]
  constructor
  · rintro ⟨hlength, hfields⟩ name
    have hsubset : Entries.keys as ⊆ Entries.keys bs := by
      intro k hk
      obtain ⟨f, hf, rfl⟩ := List.mem_map.1 hk
      obtain ⟨w, hw, -⟩ := hfields f hf
      exact isSome_lookup_iff.1 (hw ▸ rfl)
    have hperm : (Entries.keys as).Perm (Entries.keys bs) :=
      (List.subperm_of_subset ha hsubset).perm_of_length_le (by simp [Entries.keys, hlength])
    cases hv : as.lookup name with
    | some v =>
      obtain ⟨w, hw, hsame⟩ := hfields _ (SortedTable.mem_of_lookup hv)
      rw [hw]
      exact .some hsame
    | none =>
      cases hw : bs.lookup name with
      | none => exact .none
      | some w =>
        have hmem : name ∈ Entries.keys bs := isSome_lookup_iff.1 (by rw [hw, Option.isSome_some])
        rw [← hperm.mem_iff, ← isSome_lookup_iff, hv] at hmem
        cases hmem
  · intro h
    have hsome (name : String) : (as.lookup name).isSome = (bs.lookup name).isSome :=
      isSome_eq_of_rel (h name)
    have hperm : (Entries.keys as).Perm (Entries.keys bs) :=
      (List.perm_ext_iff_of_nodup ha hb).2 fun name => by
        rw [← isSome_lookup_iff, ← isSome_lookup_iff, hsome]
    refine ⟨by simpa [Entries.keys] using hperm.length_eq, fun f hf => ?_⟩
    have hrel := h f.1
    rw [Entries.lookup_of_mem ha hf] at hrel
    cases hw : bs.lookup f.1 with
    | none => rw [hw] at hrel; cases hrel
    | some w =>
      rw [hw] at hrel
      exact ⟨w, rfl, (Option.rel_some_some (r := Same)).1 hrel⟩

/-- Two values are the same if their nodes are and they have the same children. -/
theorem sameValue_iff {v w : Json} (hv : v.HasDistinctKeys) (hw : w.HasDistinctKeys) :
    v.sameValue w = true ↔
      v.sameNode w = true ∧ ∀ k, Option.Rel Same (v.child? k) (w.child? k) := by
  cases v with
  | array as =>
    cases w with
    | array bs =>
      refine (sameItems_iff as bs).trans ⟨fun h => ⟨rfl, ?_⟩, fun h i => h.2 (.element i)⟩
      rintro (name | i)
      · exact .none
      · exact h i
    | null | bool _ | number _ | string _ | object _ => exact ⟨nofun, nofun⟩
  | object as =>
    cases w with
    | object bs =>
      refine (sameObject_iff hv.1 hw.1).trans ⟨fun h => ⟨rfl, ?_⟩, fun h name => h.2 (.field name)⟩
      rintro (name | i)
      · exact h name
      · exact .none
    | null | bool _ | number _ | string _ | array _ => exact ⟨nofun, nofun⟩
  | null | bool _ | number _ | string _ =>
    cases w with
    | array bs | object bs => exact ⟨nofun, nofun⟩
    | null | bool _ | number _ | string _ => exact ⟨fun h => ⟨h, fun _ => .none⟩, And.left⟩

/-! ## Key order -/

theorem sortKeysItems_eq_map (items : List Json) : sortKeysItems items = items.map sortKeys := by
  induction items with
  | nil => rfl
  | cons j js ih => rw [sortKeysItems, ih, List.map_cons]

theorem lookup_sortKeysFields (fields : List (String × Json)) (name : String) :
    (sortKeysFields fields).lookup name = (fields.lookup name).map sortKeys := by
  induction fields with
  | nil => rfl
  | cons f rest ih =>
    obtain ⟨k, v⟩ := f
    have hinsert := (SortedTable.mk _ (sortKeysFields_ascending rest)).get?_insert k v.sortKeys name
    rw [sortKeysFields]
    refine hinsert.trans ?_
    rw [List.lookup_cons]
    by_cases hname : name = k
    · rw [if_pos hname, beq_iff_eq.2 hname]
      rfl
    · rw [if_neg hname, beq_eq_false_iff_ne.2 hname]
      exact ih

theorem child?_sortKeys (v : Json) (k : Key) : v.sortKeys.child? k = (v.child? k).map sortKeys := by
  cases v with
  | array items =>
    cases k with
    | field name => rfl
    | element i =>
      show (sortKeysItems items)[i]? = items[i]?.map sortKeys
      rw [sortKeysItems_eq_map, List.getElem?_map]
  | object fields =>
    cases k with
    | field name => exact lookup_sortKeysFields fields name
    | element i => rfl
  | null | bool _ | number _ | string _ => rfl

theorem sameNode_sortKeys (v w : Json) : v.sortKeys.sameNode w = v.sameNode w := by
  cases v <;> cases w <;> rfl

/-! ## Laws -/

/-- The numbers in a value, at any depth. -/
def HasNumbersIn (v : Json) (S : Number → Prop) : Prop := ∀ p n, v.at? p = some (.number n) → S n

/-- A value as it can be written down: no key twice in an object, and finite numbers. -/
structure IsProper (v : Json) : Prop where
  distinct : v.HasDistinctKeys
  finite : v.HasNumbersIn Number.IsFinite

section

variable {u v w : Json} {S : Number → Prop} {k : Key}

theorem HasNumbersIn.child (h : v.HasNumbersIn S) (hw : v.child? k = some w) : w.HasNumbersIn S :=
  fun p n hn => h (k :: p) n (by rw [at?, hw]; exact hn)

theorem HasNumbersIn.of_child (hv : ∀ n, v = .number n → S n)
    (hchild : ∀ k w, v.child? k = some w → w.HasNumbersIn S) : v.HasNumbersIn S := by
  rintro (_ | ⟨k, p⟩) n hn
  · exact hv n (Option.some_inj.1 hn)
  · rw [at?] at hn
    obtain ⟨w, hw, hn⟩ := Option.bind_eq_some_iff.1 hn
    exact hchild k w hw p n hn

theorem HasNumbersIn.object {fields : List (String × Json)}
    (h : ∀ f ∈ fields, f.2.HasNumbersIn S) : (Json.object fields).HasNumbersIn S := by
  refine .of_child (fun n hn => by cases hn) fun k w hw => ?_
  cases k with
  | field name => exact h _ (SortedTable.mem_of_lookup hw)
  | element i => cases hw

theorem IsProper.child (h : v.IsProper) (hw : v.child? k = some w) : w.IsProper :=
  ⟨h.distinct.child hw, h.finite.child hw⟩

theorem sameNode_refl (h : v.HasNumbersIn Number.IsFinite) : v.sameNode v = true := by
  cases v with
  | number n => exact Number.sameValue_refl (h [] n rfl)
  | bool b => exact beq_self_eq_true b
  | string s => exact beq_self_eq_true s
  | null | array _ | object _ => rfl

theorem sameNode_symm (hv : v.HasNumbersIn Number.IsFinite) (hw : w.HasNumbersIn Number.IsFinite) :
    v.sameNode w = w.sameNode v := by
  cases v <;> cases w <;> try rfl
  case number a b => exact Number.sameValue_symm (hv [] a rfl) (hw [] b rfl)
  case bool a b => exact Bool.beq_comm
  case string a b => exact BEq.comm

theorem sameNode_trans (hS : ∀ n, S n → n.IsFinite) (h : ¬ Number.Confuses S) (hu : u.HasNumbersIn S)
    (hv : v.HasNumbersIn S) (hw : w.HasNumbersIn S) (huv : u.sameNode v = true)
    (hvw : v.sameNode w = true) : u.sameNode w = true := by
  cases v <;> cases u <;> try cases huv
  all_goals cases w <;> try cases hvw
  case number b a c => exact Number.sameValue_trans hS h (hu [] a rfl) (hv [] b rfl) (hw [] c rfl) huv hvw
  case bool b a c => exact beq_iff_eq.2 ((beq_iff_eq.1 huv).trans (beq_iff_eq.1 hvw))
  case string b a c => exact beq_iff_eq.2 ((beq_iff_eq.1 huv).trans (beq_iff_eq.1 hvw))
  all_goals rfl

theorem sameValue_refl (h : v.IsProper) : v.sameValue v = true := by
  induction v using child_induction with
  | h v ih =>
    refine (sameValue_iff h.distinct h.distinct).2 ⟨sameNode_refl h.finite, fun k => ?_⟩
    cases hk : v.child? k with
    | none => exact .none
    | some c => exact .some (ih k c hk (h.child hk))

theorem sameValue_symm (hv : v.IsProper) (hw : w.IsProper) : v.sameValue w = w.sameValue v := by
  induction v using child_induction generalizing w with
  | h v ih =>
    rw [Bool.eq_iff_iff, sameValue_iff hv.distinct hw.distinct, sameValue_iff hw.distinct hv.distinct,
      sameNode_symm hv.finite hw.finite]
    refine and_congr_right fun _ => forall_congr' fun k => ?_
    cases hvk : v.child? k with
    | none =>
      cases w.child? k with
      | none => exact Iff.rfl
      | some b => exact ⟨nofun, nofun⟩
    | some a =>
      cases hwk : w.child? k with
      | none => exact ⟨nofun, nofun⟩
      | some b =>
        have hab := ih k a hvk (hv.child hvk) (hw.child hwk)
        rw [Option.rel_some_some, Option.rel_some_some, Same, Same, hab]

/-- The order of the fields, at any depth, makes no difference. -/
theorem sameValue_congr_left (hu : u.HasDistinctKeys) (hv : v.HasDistinctKeys)
    (hw : w.HasDistinctKeys) (h : u.sortKeys = v.sortKeys) : u.sameValue w = v.sameValue w := by
  induction u using child_induction generalizing v w with
  | h u ih =>
    rw [Bool.eq_iff_iff, sameValue_iff hu hw, sameValue_iff hv hw, ← sameNode_sortKeys u, h,
      sameNode_sortKeys]
    refine and_congr_right fun _ => forall_congr' fun k => ?_
    have hk : (u.child? k).map sortKeys = (v.child? k).map sortKeys := by
      rw [← child?_sortKeys, h, child?_sortKeys]
    cases huk : u.child? k with
    | none =>
      rw [huk, Option.map_none, eq_comm, Option.map_eq_none_iff] at hk
      rw [hk]
    | some a =>
      rw [huk, Option.map_some, eq_comm, Option.map_eq_some_iff] at hk
      obtain ⟨b, hvk, hab⟩ := hk
      rw [hvk]
      cases hwk : w.child? k with
      | none => exact ⟨nofun, nofun⟩
      | some c =>
        have hac := ih k a huk (hu.child huk) (hv.child hvk) (hw.child hwk) hab.symm
        rw [Option.rel_some_some, Option.rel_some_some, Same, Same, hac]

theorem sameValue_congr {v' w' : Json} (hv : v.IsProper) (hw : w.IsProper) (hv' : v'.IsProper)
    (hw' : w'.IsProper) (h : v.sortKeys = v'.sortKeys) (h' : w.sortKeys = w'.sortKeys) :
    v.sameValue w = v'.sameValue w' := by
  calc v.sameValue w = v'.sameValue w := sameValue_congr_left hv.distinct hv'.distinct hw.distinct h
    _ = w.sameValue v' := sameValue_symm hv' hw
    _ = w'.sameValue v' := sameValue_congr_left hw.distinct hw'.distinct hv'.distinct h'
    _ = v'.sameValue w' := sameValue_symm hw' hv'

theorem sameValue_trans (hS : ∀ n, S n → n.IsFinite) (h : ¬ Number.Confuses S)
    (hu : u.HasDistinctKeys) (hv : v.HasDistinctKeys) (hw : w.HasDistinctKeys)
    (hu' : u.HasNumbersIn S) (hv' : v.HasNumbersIn S) (hw' : w.HasNumbersIn S)
    (huv : u.sameValue v = true) (hvw : v.sameValue w = true) : u.sameValue w = true := by
  induction u using child_induction generalizing v w with
  | h u ih =>
    obtain ⟨hnode, hchild⟩ := (sameValue_iff hu hv).1 huv
    obtain ⟨hnode', hchild'⟩ := (sameValue_iff hv hw).1 hvw
    refine (sameValue_iff hu hw).2 ⟨sameNode_trans hS h hu' hv' hw' hnode hnode', fun k => ?_⟩
    have hk := hchild k
    have hk' := hchild' k
    cases huk : u.child? k with
    | none =>
      rw [huk] at hk
      cases hvk : v.child? k with
      | some b => rw [hvk] at hk; cases hk
      | none =>
        rw [hvk] at hk'
        exact hk'
    | some a =>
      rw [huk] at hk
      cases hvk : v.child? k with
      | none => rw [hvk] at hk; cases hk
      | some b =>
        rw [hvk] at hk hk'
        cases hwk : w.child? k with
        | none => rw [hwk] at hk'; cases hk'
        | some c =>
          rw [hwk] at hk'
          exact .some (ih k a huk (hu.child huk) (hv.child hvk) (hw.child hwk) (hu'.child huk)
            (hv'.child hvk) (hw'.child hwk) ((Option.rel_some_some (r := Same)).1 hk)
            ((Option.rel_some_some (r := Same)).1 hk'))

/-- The equality is transitive on the values over a set of numbers if and only if none of the numbers
has the double of two different words of the set. -/
theorem sameValue_transitive_iff (hS : ∀ n, S n → n.IsFinite) :
    (∀ u v w : Json, u.HasDistinctKeys → v.HasDistinctKeys → w.HasDistinctKeys →
      u.HasNumbersIn S → v.HasNumbersIn S → w.HasNumbersIn S →
      u.sameValue v = true → v.sameValue w = true → u.sameValue w = true) ↔
    ¬ Number.Confuses S := by
  refine ⟨?_, fun h u v w hu hv hw hu' hv' hw' => sameValue_trans hS h hu hv hw hu' hv' hw'⟩
  rintro htrans ⟨a, b, c, ha, hb, hc, hword, hword', hne, hno, hac, hcb⟩
  have hin {n : Number} (hn : S n) : (number n).HasNumbersIn S :=
    .of_child (fun m hm => Json.number.inj hm ▸ hn) fun k w hw => by cases k <;> cases hw
  have hsame := htrans (.number a) (.number c) (.number b) trivial trivial trivial (hin ha) (hin hc)
    (hin hb) ((Number.sameValue_iff (hS a ha) (hS c hc)).2 (.inr ⟨hac, fun h => hno h.2⟩))
    ((Number.sameValue_iff (hS c hc) (hS b hb)).2 (.inr ⟨hcb, fun h => hno h.1⟩))
  rcases (Number.sameValue_iff (hS a ha) (hS b hb)).1 hsame with heq | ⟨-, hwords⟩
  · exact hne heq
  · exact hwords ⟨hword, hword'⟩

end

end Json
end PolicyDecision
