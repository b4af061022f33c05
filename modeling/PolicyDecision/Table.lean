/-!
# PolicyDecision.Table

Tables from names to values, kept as lists of pairs.

* `Entries.put`: the table in insertion order; a key that is set again keeps its place.
* `SortedTable`: the table in the order of its keys, each key once.
-/

namespace PolicyDecision

/-! ## Keys -/

/-- The keys of a list, each at its first place, are different. -/
theorem nodup_eraseDups {α : Type} [BEq α] [LawfulBEq α] (l : List α) : l.eraseDups.Nodup := by
  induction hn : l.length using Nat.strongRecOn generalizing l with
  | ind n ih =>
    cases l with
    | nil => simp
    | cons a rest =>
      have hlt : (rest.filter fun b => !b == a).length < n := by
        rw [← hn, List.length_cons]
        exact Nat.lt_succ_of_le (List.length_filter_le _ _)
      rw [List.eraseDups_cons, List.nodup_cons]
      exact ⟨by simp [List.mem_eraseDups], ih _ hlt _ rfl⟩

/-! ## Insertion order -/

namespace Entries

variable {α : Type}

/-- Bind `key`; a new key goes to the end. -/
def put (key : String) (value : α) : List (String × α) → List (String × α)
  | [] => [(key, value)]
  | (k, v) :: rest => if k = key then (k, value) :: rest else (k, v) :: put key value rest

/-- The table of a list of bindings, the last binding of a key winning. -/
def ofList (bindings : List (String × α)) : List (String × α) :=
  bindings.foldl (fun table b => put b.1 b.2 table) []

def keys (table : List (String × α)) : List String := table.map (·.1)

@[simp]
theorem lookup_put_self (key : String) (value : α) (table : List (String × α)) :
    (put key value table).lookup key = some value := by
  induction table with
  | nil => simp [put]
  | cons b rest ih =>
    obtain ⟨k, v⟩ := b
    by_cases h : k = key
    · simp [put, h]
    · have h' : (key == k) = false := by simpa using fun e => h e.symm
      simp [put, h, List.lookup_cons, h', ih]

theorem lookup_put_ne {key other : String} (value : α) (table : List (String × α))
    (h : other ≠ key) : (put key value table).lookup other = table.lookup other := by
  have hk : (other == key) = false := by simpa using h
  induction table with
  | nil => simp [put, List.lookup_cons, hk]
  | cons b rest ih =>
    obtain ⟨k, v⟩ := b
    by_cases hb : k = key
    · simp [put, hb, List.lookup_cons, hk]
    · simp only [put, hb, if_false, List.lookup_cons]
      split
      · rfl
      · exact ih

theorem lookup_of_mem {table : List (String × α)} (h : (keys table).Nodup) {b : String × α}
    (hb : b ∈ table) : table.lookup b.1 = some b.2 := by
  induction table with
  | nil => cases hb
  | cons a rest ih =>
    obtain ⟨ha, hr⟩ := List.nodup_cons.1 h
    rcases List.mem_cons.1 hb with rfl | hb
    · rw [List.lookup_cons, beq_self_eq_true]
    · have hne : (b.1 == a.1) = false :=
        beq_eq_false_iff_ne.2 fun he => ha (List.mem_map.2 ⟨b, hb, he⟩)
      rw [List.lookup_cons, hne]
      exact ih hr hb

theorem put_of_not_mem {key : String} {value : α} {table : List (String × α)}
    (h : key ∉ keys table) : put key value table = table ++ [(key, value)] := by
  induction table with
  | nil => rfl
  | cons a rest ih =>
    obtain ⟨hne, hr⟩ := not_or.1 (mt List.mem_cons.2 h)
    rw [put, if_neg fun he => hne he.symm, ih hr]
    rfl

/-- Distinct keys are bound in their order. -/
theorem ofList_eq_self {bindings : List (String × α)} (h : (keys bindings).Nodup) :
    ofList bindings = bindings := by
  suffices hgo : ∀ done : List (String × α), (keys (done ++ bindings)).Nodup →
      bindings.foldl (fun table b => put b.1 b.2 table) done = done ++ bindings from hgo [] h
  clear h
  induction bindings with
  | nil => exact fun done _ => (List.append_nil done).symm
  | cons b rest ih =>
    intro done hdone
    have hb : b.1 ∉ keys done := by
      rw [keys, List.map_append] at hdone
      exact fun hmem => (List.nodup_append.1 hdone).2.2 _ hmem _ List.mem_cons_self rfl
    rw [List.foldl_cons, put_of_not_mem hb, ih _ (by simpa using hdone), List.append_assoc]
    rfl

end Entries

/-! ## Key order -/

/-- A table whose keys stand in strictly ascending order. -/
structure SortedTable (α : Type) where
  entries : List (String × α)
  ascending : entries.Pairwise fun a b => a.1 < b.1

namespace SortedTable

variable {α β : Type}

def empty : SortedTable α := ⟨[], .nil⟩

instance : Inhabited (SortedTable α) := ⟨empty⟩

def keys (t : SortedTable α) : List String := t.entries.map (·.1)

def values (t : SortedTable α) : List α := t.entries.map (·.2)

def size (t : SortedTable α) : Nat := t.entries.length

def get? (t : SortedTable α) (key : String) : Option α := t.entries.lookup key

def contains (t : SortedTable α) (key : String) : Bool := (t.get? key).isSome

/-- Put a binding in front of the first greater key, over an equal one. -/
def place (key : String) (value : α) : List (String × α) → List (String × α)
  | [] => [(key, value)]
  | (k, v) :: rest =>
    if key < k then (key, value) :: (k, v) :: rest
    else if key = k then (key, value) :: rest
    else (k, v) :: place key value rest

theorem mem_place {key : String} {value : α} {b : String × α} {l : List (String × α)} :
    b ∈ place key value l → b = (key, value) ∨ b ∈ l := by
  induction l with
  | nil => simp [place]
  | cons a rest ih =>
    simp only [place]
    split
    · simp
    · split
      · simp only [List.mem_cons]
        rintro (rfl | h)
        · exact .inl rfl
        · exact .inr (.inr h)
      · simp only [List.mem_cons]
        rintro (rfl | h)
        · exact .inr (.inl rfl)
        · exact (ih h).imp id .inr

theorem place_ascending {key : String} {value : α} {l : List (String × α)}
    (h : l.Pairwise fun a b => a.1 < b.1) :
    (place key value l).Pairwise fun a b => a.1 < b.1 := by
  induction l with
  | nil => simp [place]
  | cons a rest ih =>
    obtain ⟨ha, hr⟩ := List.pairwise_cons.1 h
    simp only [place]
    split
    · rename_i hlt
      refine List.pairwise_cons.2 ⟨?_, h⟩
      intro b hb
      rcases List.mem_cons.1 hb with rfl | hb
      · exact hlt
      · exact String.lt_trans hlt (ha b hb)
    · split
      · rename_i heq
        exact List.pairwise_cons.2 ⟨fun b hb => heq ▸ ha b hb, hr⟩
      · rename_i hge hne
        refine List.pairwise_cons.2 ⟨?_, ih hr⟩
        intro b hb
        rcases mem_place hb with rfl | hb
        · show a.1 < key
          exact Decidable.byContradiction fun hn =>
            hne (String.le_antisymm (String.not_lt.1 hn) (String.not_lt.1 hge))
        · exact ha b hb

def insert (t : SortedTable α) (key : String) (value : α) : SortedTable α :=
  ⟨place key value t.entries, place_ascending t.ascending⟩

def erase (t : SortedTable α) (key : String) : SortedTable α :=
  ⟨t.entries.filter (fun b => b.1 != key), t.ascending.sublist List.filter_sublist⟩

def ofList (bindings : List (String × α)) : SortedTable α :=
  bindings.foldl (fun t b => t.insert b.1 b.2) empty

/-- Change every value, leaving the keys. -/
def map (f : α → β) (t : SortedTable α) : SortedTable β :=
  ⟨t.entries.map fun b => (b.1, f b.2), by
    rw [List.pairwise_map]
    exact t.ascending⟩

@[ext]
theorem ext {s t : SortedTable α} (h : s.entries = t.entries) : s = t := by
  cases s; cases t; cases h; rfl

/-! ### Bindings -/

section

variable {t : SortedTable α} {key : String} {value : α} {b : String × α}

theorem mem_of_lookup {l : List (String × α)} (h : l.lookup key = some value) :
    (key, value) ∈ l := by
  induction l with
  | nil => cases h
  | cons a rest ih =>
    rw [List.lookup_cons] at h
    split at h
    · rename_i he
      obtain rfl := Option.some.inj h
      obtain rfl : key = a.1 := by simpa using he
      exact .head _
    · exact .tail _ (ih h)

theorem lookup_of_mem {l : List (String × α)} (hl : l.Pairwise fun a b => a.1 < b.1)
    (h : (key, value) ∈ l) : l.lookup key = some value := by
  induction l with
  | nil => cases h
  | cons a rest ih =>
    obtain ⟨ha, hr⟩ := List.pairwise_cons.1 hl
    rcases List.mem_cons.1 h with rfl | h
    · simp
    · have hne : (key == a.1) = false := by
        rw [beq_eq_false_iff_ne]
        rintro rfl
        exact String.lt_irrefl _ (ha (a.1, value) h)
      rw [List.lookup_cons, hne]
      exact ih hr h

/-- Every key is bound once. -/
theorem get?_eq_some_iff : t.get? key = some value ↔ (key, value) ∈ t.entries :=
  ⟨mem_of_lookup, lookup_of_mem t.ascending⟩

theorem eq_of_key_eq {a : String × α} (ha : a ∈ t.entries) (hb : b ∈ t.entries)
    (h : a.1 = b.1) : a = b := by
  have hlookup := get?_eq_some_iff.2 ha
  rw [h, get?_eq_some_iff.2 hb] at hlookup
  exact Prod.ext h (Option.some.inj hlookup).symm

theorem mem_entries_insert (h : b ∈ (t.insert key value).entries) :
    b = (key, value) ∨ b ∈ t.entries := mem_place h

theorem mem_place_iff {l : List (String × α)} (hl : l.Pairwise fun a b => a.1 < b.1) :
    b ∈ place key value l ↔ b = (key, value) ∨ (b ∈ l ∧ b.1 ≠ key) := by
  induction l with
  | nil => simp [place]
  | cons a rest ih =>
    obtain ⟨ha, hr⟩ := List.pairwise_cons.1 hl
    simp only [place]
    split
    · rename_i hlt
      have hne (c : String × α) (hc : c ∈ a :: rest) : c.1 ≠ key := by
        rintro rfl
        rcases List.mem_cons.1 hc with rfl | hc
        · exact String.lt_irrefl _ hlt
        · exact String.lt_irrefl _ (String.lt_trans hlt (ha c hc))
      rw [List.mem_cons]
      exact or_congr_right ⟨fun hb => ⟨hb, hne b hb⟩, And.left⟩
    · split
      · rename_i he
        subst he
        have hne (c : String × α) (hc : c ∈ rest) : c.1 ≠ a.1 := fun h =>
          String.lt_irrefl _ (h ▸ ha c hc)
        rw [List.mem_cons, List.mem_cons]
        refine or_congr_right ⟨fun hb => ⟨.inr hb, hne b hb⟩, ?_⟩
        rintro ⟨rfl | hb, h⟩
        · exact absurd rfl h
        · exact hb
      · rename_i he
        rw [List.mem_cons, ih hr, List.mem_cons]
        constructor
        · rintro (rfl | rfl | ⟨hb, h⟩)
          · exact .inr ⟨.inl rfl, fun h => he h.symm⟩
          · exact .inl rfl
          · exact .inr ⟨.inr hb, h⟩
        · rintro (rfl | ⟨rfl | hb, h⟩)
          · exact .inr (.inl rfl)
          · exact .inl rfl
          · exact .inr (.inr ⟨hb, h⟩)

theorem mem_entries_insert_iff :
    b ∈ (t.insert key value).entries ↔ b = (key, value) ∨ (b ∈ t.entries ∧ b.1 ≠ key) :=
  mem_place_iff t.ascending

theorem contains_iff : t.contains key = true ↔ ∃ b ∈ t.entries, b.1 = key := by
  rw [contains, Option.isSome_iff_exists]
  constructor
  · rintro ⟨v, hv⟩
    exact ⟨(key, v), get?_eq_some_iff.1 hv, rfl⟩
  · rintro ⟨b, hb, rfl⟩
    exact ⟨b.2, get?_eq_some_iff.2 hb⟩

/-- A table is determined by its bindings. -/
theorem ext_mem {s t : SortedTable α} (h : ∀ b, b ∈ s.entries ↔ b ∈ t.entries) : s = t := by
  have hnodup (t : SortedTable α) : t.entries.Nodup := by
    refine List.Pairwise.imp ?_ t.ascending
    rintro a _ hlt rfl
    exact String.lt_irrefl _ hlt
  refine ext (List.Perm.eq_of_pairwise (fun a b _ _ hab hba => ?_) s.ascending t.ascending
    ((List.perm_ext_iff_of_nodup (hnodup s) (hnodup t)).2 h))
  exact absurd hba (String.lt_asymm hab)

theorem keys_ascending (t : SortedTable α) : t.keys.Pairwise (· < ·) := by
  rw [keys, List.pairwise_map]
  exact t.ascending

theorem mem_entries_erase : b ∈ (t.erase key).entries ↔ b ∈ t.entries ∧ b.1 ≠ key := by
  simp [erase]

theorem get?_insert (key : String) (value : α) (name : String) :
    (t.insert key value).get? name = if name = key then some value else t.get? name := by
  split
  · rename_i h
    subst h
    exact get?_eq_some_iff.2 (mem_entries_insert_iff.2 (.inl rfl))
  · rename_i h
    refine Option.ext fun v => ?_
    rw [get?_eq_some_iff, get?_eq_some_iff, mem_entries_insert_iff]
    simp [h]

theorem get?_erase (key name : String) :
    (t.erase key).get? name = if name = key then none else t.get? name := by
  refine Option.ext fun v => ?_
  rw [get?_eq_some_iff, mem_entries_erase]
  split
  · rename_i h
    simp [h]
  · rename_i h
    rw [get?_eq_some_iff]
    simp [h]

/-- A table is determined by what it binds every key to. -/
theorem ext_get? {s t : SortedTable α} (h : ∀ key, s.get? key = t.get? key) : s = t := by
  refine ext_mem fun b => ?_
  rw [← get?_eq_some_iff, ← get?_eq_some_iff, h]

theorem mem_entries_map {f : α → β} {b : String × β} :
    b ∈ (t.map f).entries ↔ ∃ a ∈ t.entries, (a.1, f a.2) = b := List.mem_map

theorem exists_mem_values {p : α → Prop} :
    (∃ a ∈ t.values, p a) ↔ ∃ b ∈ t.entries, p b.2 := by
  constructor
  · rintro ⟨a, ha, h⟩
    obtain ⟨b, hb, rfl⟩ := List.mem_map.1 ha
    exact ⟨b, hb, h⟩
  · rintro ⟨b, hb, h⟩
    exact ⟨b.2, List.mem_map_of_mem hb, h⟩

@[simp]
theorem entries_map (f : α → β) (t : SortedTable α) :
    (t.map f).entries = t.entries.map fun b => (b.1, f b.2) := rfl

@[simp]
theorem values_map (f : α → β) (t : SortedTable α) : (t.map f).values = t.values.map f := by
  simp [values, Function.comp_def]

@[simp]
theorem get?_map (f : α → β) (t : SortedTable α) (key : String) :
    (t.map f).get? key = (t.get? key).map f := by
  unfold get?
  rw [entries_map]
  induction t.entries with
  | nil => rfl
  | cons a rest ih =>
    rw [List.map_cons, List.lookup_cons, List.lookup_cons]
    split
    · rfl
    · exact ih

@[simp]
theorem contains_map (f : α → β) (t : SortedTable α) (key : String) :
    (t.map f).contains key = t.contains key := by
  simp [contains]

/-- A table with the same keys whose values are the images. -/
theorem eq_map {f : α → β} {s : SortedTable β} (h : ∀ a ∈ t.entries, (a.1, f a.2) ∈ s.entries)
    (hkeys : ∀ b ∈ s.entries, ∃ a ∈ t.entries, a.1 = b.1) : s = t.map f := by
  refine ext_mem fun b => ?_
  rw [mem_entries_map]
  constructor
  · intro hb
    obtain ⟨a, ha, hkey⟩ := hkeys b hb
    exact ⟨a, ha, eq_of_key_eq (h a ha) hb hkey⟩
  · rintro ⟨a, ha, rfl⟩
    exact h a ha

theorem map_insert (f : α → β) (t : SortedTable α) (key : String) (value : α) :
    (t.insert key value).map f = (t.map f).insert key (f value) := by
  refine ext ?_
  show (place key value t.entries).map (fun b => (b.1, f b.2)) =
    place key (f value) (t.entries.map fun b => (b.1, f b.2))
  induction t.entries with
  | nil => rfl
  | cons a rest ih =>
    simp only [place, List.map_cons]
    split
    · rfl
    · split
      · rfl
      · rw [List.map_cons, ih]

theorem map_erase (f : α → β) (t : SortedTable α) (key : String) :
    (t.erase key).map f = (t.map f).erase key := by
  refine ext ?_
  simp [erase, List.filter_map, Function.comp_def]

end

instance [DecidableEq α] : DecidableEq (SortedTable α) := fun s t =>
  decidable_of_iff (s.entries = t.entries) ⟨ext, fun h => h ▸ rfl⟩

end SortedTable
end PolicyDecision
