import Mathlib.Data.List.Perm.Basic
import PolicyDecision.Proofs.Json.SameValue

/-!
# PolicyDecision.Proofs.Json.Reordering

Values that differ in the order of fields only.

* `Json.Reordered`: the relation, by the structure of the values.
* `Json.sortKeys_eq_iff`: values of distinct keys have the same form with all fields in key order exactly
  if they are related.
-/

namespace PolicyDecision
namespace Json

/-- The second value is the first one with the fields of its objects, at any depth, in another order. -/
inductive Reordered : Json → Json → Prop
  | refl (v : Json) : Reordered v v
  | array {as bs : List Json} (hitems : List.Forall₂ Reordered as bs) :
      Reordered (.array as) (.array bs)
  | object {as bs cs : List (String × Json)} (hkeys : as.map (·.1) = bs.map (·.1))
      (hvalues : List.Forall₂ Reordered (as.map (·.2)) (bs.map (·.2))) (hperm : bs.Perm cs) :
      Reordered (.object as) (.object cs)

/-- A field with its value in key order. -/
def sortedField (f : String × Json) : String × Json := (f.1, f.2.sortKeys)

variable {v w : Json} {as bs fields : List (String × Json)}

theorem map_fst_sortedField (fields : List (String × Json)) :
    (fields.map sortedField).map (·.1) = fields.map (·.1) := by
  rw [List.map_map]
  rfl

theorem map_snd_sortedField (fields : List (String × Json)) :
    (fields.map sortedField).map (·.2) = (fields.map (·.2)).map sortKeys := by
  rw [List.map_map, List.map_map]
  rfl

/-- Fields with sorted values are determined by their names and these values. -/
theorem map_sortedField_inj (hkeys : as.map (·.1) = bs.map (·.1))
    (hvalues : (as.map (·.2)).map sortKeys = (bs.map (·.2)).map sortKeys) :
    as.map sortedField = bs.map sortedField := by
  rw [← map_fst_sortedField, ← map_fst_sortedField bs] at hkeys
  rw [← map_snd_sortedField, ← map_snd_sortedField] at hvalues
  exact (List.zip_of_prod hkeys hvalues).trans (List.zip_of_prod rfl rfl).symm

/-! ## Fields in key order -/

theorem place_perm {key : String} {value : Json} (h : key ∉ fields.map (·.1)) :
    (SortedTable.place key value fields).Perm ((key, value) :: fields) := by
  induction fields with
  | nil => exact .refl _
  | cons f rest ih =>
    rw [List.map_cons, List.mem_cons, not_or] at h
    rw [SortedTable.place, if_neg h.1]
    split
    · exact .refl _
    · exact ((ih h.2).cons f).trans (.swap _ _ _)

/-- Distinct fields are all kept. -/
theorem sortKeysFields_perm (h : (Entries.keys fields).Nodup) :
    (sortKeysFields fields).Perm (fields.map sortedField) := by
  induction fields with
  | nil => exact .refl _
  | cons f rest ih =>
    obtain ⟨hnot, hrest⟩ := List.nodup_cons.1 h
    have hkey : f.1 ∉ (sortKeysFields rest).map (·.1) := by
      rwa [((ih hrest).map _).mem_iff, map_fst_sortedField]
    rw [sortKeysFields, List.map_cons]
    exact (place_perm hkey).trans ((ih hrest).cons _)

/-- The order of distinct fields makes no difference, and nothing else is lost. -/
theorem sortKeysFields_eq_iff (ha : (Entries.keys as).Nodup) (hb : (Entries.keys bs).Nodup) :
    sortKeysFields as = sortKeysFields bs ↔ (as.map sortedField).Perm (bs.map sortedField) := by
  constructor
  · intro h
    exact (sortKeysFields_perm ha).symm.trans (h ▸ sortKeysFields_perm hb)
  · intro h
    have hperm := (sortKeysFields_perm ha).trans (h.trans (sortKeysFields_perm hb).symm)
    have htable : SortedTable.mk _ (sortKeysFields_ascending as) =
        SortedTable.mk _ (sortKeysFields_ascending bs) :=
      SortedTable.ext_mem fun f => hperm.mem_iff
    exact congrArg SortedTable.entries htable

/-! ## The relation -/

theorem forall₂_of_map_eq {α β : Type} {R : α → α → Prop} {f : α → β} {l m : List α}
    (h : l.map f = m.map f) (hR : ∀ a ∈ l, ∀ b ∈ m, f a = f b → R a b) : List.Forall₂ R l m := by
  induction l generalizing m with
  | nil =>
    obtain rfl := List.map_eq_nil_iff.1 h.symm
    exact .nil
  | cons a l ih =>
    cases m with
    | nil => cases h
    | cons b m =>
      obtain ⟨hab, hrest⟩ := List.cons.inj h
      refine .cons (hR a List.mem_cons_self b List.mem_cons_self hab) (ih hrest fun c hc d hd => ?_)
      exact hR c (List.mem_cons_of_mem a hc) d (List.mem_cons_of_mem b hd)

theorem map_eq_of_forall₂ {α β : Type} {R : α → α → Prop} {f : α → β} {l m : List α}
    (h : List.Forall₂ R l m) (hf : ∀ a ∈ l, ∀ b ∈ m, R a b → f a = f b) : l.map f = m.map f := by
  induction h with
  | nil => rfl
  | cons hab _ ih =>
    rw [List.map_cons, List.map_cons, hf _ List.mem_cons_self _ List.mem_cons_self hab,
      ih fun c hc d hd => hf c (List.mem_cons_of_mem _ hc) d (List.mem_cons_of_mem _ hd)]

/-- The fields of the first list in the order of the second one. -/
theorem exists_perm_of_map_perm {α β : Type} {f : α → β} {l m : List α}
    (h : (l.map f).Perm (m.map f)) : ∃ n : List α, l.map f = n.map f ∧ n.Perm m := by
  have himage : List.Forall₂ (fun b a => b = f a) (m.map f) m :=
    List.forall₂_map_left_iff.2 (List.forall₂_same.2 fun _ _ => rfl)
  obtain ⟨n, hn, hperm⟩ := List.perm_comp_forall₂ h himage
  have hall : List.Forall₂ Eq (l.map f) (n.map f) := List.forall₂_map_right_iff.2 hn
  rw [List.forall₂_eq_eq_eq] at hall
  exact ⟨n, hall, hperm⟩

theorem reordered_of_sortKeys (hv : v.HasDistinctKeys) (hw : w.HasDistinctKeys)
    (h : v.sortKeys = w.sortKeys) : v.Reordered w := by
  induction v using child_induction generalizing w with
  | h v ih =>
    cases v with
    | array as =>
      cases w with
      | array bs =>
        have hitems : as.map sortKeys = bs.map sortKeys := by
          rw [← sortKeysItems_eq_map, ← sortKeysItems_eq_map]
          exact Json.array.inj h
        refine .array (forall₂_of_map_eq hitems fun a ha b hb hab => ?_)
        obtain ⟨i, hi⟩ := List.mem_iff_getElem?.1 ha
        exact ih (.element i) a hi (hv.of_mem ha) (hw.of_mem hb) hab
      | _ => cases h
    | object as =>
      cases w with
      | object bs =>
        have hfields := (sortKeysFields_eq_iff hv.1 hw.1).1 (Json.object.inj h)
        obtain ⟨cs, hmap, hperm⟩ := exists_perm_of_map_perm hfields
        have hkeys := congrArg (List.map (·.1)) hmap
        have hvalues := congrArg (List.map (·.2)) hmap
        rw [map_fst_sortedField, map_fst_sortedField] at hkeys
        rw [map_snd_sortedField, map_snd_sortedField] at hvalues
        refine .object hkeys (forall₂_of_map_eq hvalues fun a ha b hb hab => ?_) hperm
        obtain ⟨f, hf, rfl⟩ := List.mem_map.1 ha
        obtain ⟨g, hg, rfl⟩ := List.mem_map.1 hb
        exact ih (.field f.1) f.2 (Entries.lookup_of_mem hv.1 hf) (hv.2.of_mem hf)
          (hw.2.of_mem (hperm.mem_iff.1 hg)) hab
      | _ => cases h
    | _ =>
      cases w with
      | array bs | object bs => cases h
      | _ => cases h <;> exact .refl _

theorem Reordered.sortKeys_eq (h : v.Reordered w) (hv : v.HasDistinctKeys)
    (hw : w.HasDistinctKeys) : v.sortKeys = w.sortKeys := by
  induction v using child_induction generalizing w with
  | h v ih =>
    cases h with
    | refl => rfl
    | array hitems =>
      refine congrArg Json.array ?_
      rw [sortKeysItems_eq_map, sortKeysItems_eq_map]
      refine map_eq_of_forall₂ hitems fun a ha b hb hab => ?_
      obtain ⟨i, hi⟩ := List.mem_iff_getElem?.1 ha
      exact ih (.element i) a hi hab (hv.of_mem ha) (hw.of_mem hb)
    | object hkeys hvalues hperm =>
      have hsorted := map_eq_of_forall₂ hvalues fun a ha b hb hab => by
        obtain ⟨f, hf, rfl⟩ := List.mem_map.1 ha
        obtain ⟨g, hg, rfl⟩ := List.mem_map.1 hb
        exact ih (.field f.1) f.2 (Entries.lookup_of_mem hv.1 hf) hab (hv.2.of_mem hf)
          (hw.2.of_mem (hperm.mem_iff.1 hg))
      refine congrArg Json.object ((sortKeysFields_eq_iff hv.1 hw.1).2 ?_)
      rw [map_sortedField_inj hkeys hsorted]
      exact hperm.map _

/-- Values of distinct keys have one form in key order exactly if they differ in the order of their
fields only. -/
theorem sortKeys_eq_iff (hv : v.HasDistinctKeys) (hw : w.HasDistinctKeys) :
    v.sortKeys = w.sortKeys ↔ v.Reordered w :=
  ⟨reordered_of_sortKeys hv hw, fun h => h.sortKeys_eq hv hw⟩

end Json
end PolicyDecision
