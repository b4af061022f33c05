import Mathlib.Order.Monotone.Defs
import PolicyDecision.Proofs.Index.Correspondence
import PolicyDecision.Proofs.Index.Sharing
import PolicyDecision.Proofs.Json.Reordering

/-!
# PolicyDecision.Proofs.Index.Interning

The numbers of predicates through interning and compacting in any sequence.

A table is kept as two structures, the list of the predicates with their numbers and the number of each
signature. Every operation keeps them in step, and the numbers are the positions in the list.

* `SignatureIndex`: both structures and the operations on them.
* `SignatureIndex.Indexes`: they are in step with a table; `Indexes.intern`, `Indexes.compacted`.
* `PredicateTable.run`: a sequence of operations; `SignatureIndex.Indexes.run`: both stay in step.
* `Expression.signature_eq_iff_reordered`: signatures are equal up to the order of fields exactly.
* `PredicateTable.interning`: what a table does after any sequence of operations.
-/

namespace PolicyDecision

/-- Change or drop every value, leaving the keys. -/
def SortedTable.filterMap {α β : Type} (f : α → Option β) (t : SortedTable α) : SortedTable β :=
  ⟨t.entries.filterMap fun b => (f b.2).map fun v => (b.1, v), by
    refine List.Pairwise.filterMap _ (fun a b hab c hc d hd => ?_) t.ascending
    obtain ⟨_, _, rfl⟩ := Option.map_eq_some_iff.1 hc
    obtain ⟨_, _, rfl⟩ := Option.map_eq_some_iff.1 hd
    exact hab⟩

theorem SortedTable.get?_filterMap {α β : Type} (f : α → Option β) (t : SortedTable α) (key : String) :
    (t.filterMap f).get? key = (t.get? key).bind f := by
  refine Option.ext fun v => ?_
  rw [get?_eq_some_iff, Option.bind_eq_some_iff, filterMap, List.mem_filterMap]
  constructor
  · rintro ⟨b, hb, hv⟩
    obtain ⟨w, hw, he⟩ := Option.map_eq_some_iff.1 hv
    cases he
    exact ⟨b.2, get?_eq_some_iff.2 hb, hw⟩
  · rintro ⟨w, hw, hv⟩
    exact ⟨(key, w), get?_eq_some_iff.1 hw, by rw [hv]; rfl⟩

/-! ## Tables -/

namespace PredicateTable

variable {t u : PredicateTable} {e p : Expression} {id : PredicateId} {live : OrderedSet PredicateId}

theorem IsDistinct.find?_eq_some_iff (h : t.IsDistinct) :
    t.find? e = some id ↔ ∃ p, t.get? id = some p ∧ p.signature = e.signature :=
  ⟨find?_spec, fun ⟨_, hp, hsig⟩ => h.find? hp hsig⟩

theorem get?_concat (t : PredicateTable) (e : Expression) (id : PredicateId) :
    get? ⟨t.predicates ++ [e]⟩ id = if id = t.size then some e else t.get? id := by
  rw [get?, get?, size, List.getElem?_append]
  grind

/-- The new number of a predicate is its place among the survivors. -/
theorem lookup_renumbering {old new : PredicateId} :
    (t.renumbering live).lookup old = some new ↔ (t.survivors live)[new]? = some old := by
  by_cases hmem : old ∈ t.survivors live
  · obtain ⟨n, hn, hlookup⟩ := lookup_zipIdx (k := 0) hmem
    rw [renumbering, hlookup, Nat.zero_add, Option.some.injEq]
    constructor
    · rintro rfl
      exact hn
    · intro hnew
      have hlt := (List.getElem?_eq_some_iff.1 hn).1
      exact (List.getElem?_inj hlt (t.survivors_nodup live)).1 (hn.trans hnew.symm)
  · refine iff_of_false (fun h => ?_) fun h => hmem (List.mem_of_getElem? h)
    obtain ⟨before, after, hsplit, -⟩ := List.lookup_eq_some_iff.1 h
    have hmem' : (old, new) ∈ (t.survivors live).zipIdx := by
      rw [← renumbering, hsplit]
      exact List.mem_append_right _ List.mem_cons_self
    exact hmem (List.fst_mem_of_mem_zipIdx hmem')

theorem survivors_eq (t : PredicateTable) (live : OrderedSet PredicateId) :
    t.survivors live = (t.predicates.zipIdx.filter fun p => live.contains p.2).map (·.2) := by
  rw [survivors, size, List.range_eq_range', ← List.zipIdx_map_snd 0 t.predicates, List.filter_map]
  rfl

/-- The live predicates are kept in their order. -/
theorem predicates_compacted_eq (t : PredicateTable) (live : OrderedSet PredicateId) :
    (t.compacted live).predicates =
      (t.predicates.zipIdx.filter fun p => live.contains p.2).map (·.1) := by
  rw [compacted, survivors_eq, List.filterMap_map, ← List.filterMap_eq_map]
  refine List.filterMap_congr fun p hp => ?_
  exact List.mem_zipIdx_iff_getElem?.1 (List.mem_of_mem_filter hp)

theorem get?_compacted_eq (t : PredicateTable) (live : OrderedSet PredicateId) (id : PredicateId) :
    (t.compacted live).get? id = (t.survivors live)[id]?.bind t.get? := by
  rw [get?, predicates_compacted, List.getElem?_map]
  cases h : (t.survivors live)[id]? with
  | none => rfl
  | some old => exact (get?_of_mem_survivors (List.mem_of_getElem? h)).symm

end PredicateTable

/-! ## Two structures -/

/-- The predicates with their numbers, and the number of each signature. -/
structure SignatureIndex where
  numbers : SortedTable PredicateId
  predicates : List (PredicateId × Expression)

/-- A predicate that is kept, with its number before and after. -/
structure Renumbered where
  old : PredicateId
  new : PredicateId
  expression : Expression

namespace SignatureIndex

def empty : SignatureIndex := ⟨.empty, []⟩

def intern (s : SignatureIndex) (e : Expression) : Except Error (PredicateId × SignatureIndex) :=
  match s.numbers.get? e.signature with
  | some id => .ok (id, s)
  | none =>
    let id := s.predicates.length
    if id < PredicateTable.capacity then
      .ok (id, ⟨s.numbers.insert e.signature id, s.predicates ++ [(id, e)]⟩)
    else .error .tooManyPredicates

/-- The live predicates, numbered one after the other. -/
def keep (live : OrderedSet PredicateId) (next : PredicateId) :
    List (PredicateId × Expression) → List Renumbered
  | [] => []
  | (id, e) :: rest =>
    if live.contains id then ⟨id, next, e⟩ :: keep live (next + 1) rest else keep live next rest

/-- The live predicates only, and the new number of each old one. -/
def compacted (s : SignatureIndex) (live : OrderedSet PredicateId) :
    SignatureIndex × List (PredicateId × PredicateId) :=
  let kept := keep live 0 s.predicates
  let renamed := kept.map fun k => (k.old, k.new)
  (⟨s.numbers.filterMap fun id => renamed.lookup id, kept.map fun k => (k.new, k.expression)⟩, renamed)

/-- Both structures are in step with a table: every predicate has its position as its number, and every
signature leads to the predicate that has it. -/
structure Indexes (s : SignatureIndex) (t : PredicateTable) : Prop where
  predicates : s.predicates = t.predicates.zipIdx.map Prod.swap
  numbers : ∀ signature id, s.numbers.get? signature = some id ↔
    ∃ p, t.get? id = some p ∧ p.signature = signature

variable {s : SignatureIndex} {t u : PredicateTable} {e p : Expression} {id : PredicateId}
  {live : OrderedSet PredicateId}

theorem indexes_empty : empty.Indexes .empty where
  predicates := rfl
  numbers _ _ := ⟨nofun, fun ⟨_, hp, _⟩ => nomatch hp⟩

theorem Indexes.isDistinct (h : s.Indexes t) : t.IsDistinct := by
  rw [PredicateTable.IsDistinct, List.nodup_iff_getElem?_ne_getElem?]
  intro i j hij hj heq
  obtain ⟨p, hp, hsig⟩ : ∃ p, t.get? j = some p ∧
      p.signature = (t.predicates.map Expression.signature)[j] := by
    rw [List.getElem_map]
    exact ⟨_, List.getElem?_eq_getElem (by simpa using hj), rfl⟩
  rw [List.getElem?_eq_getElem hj, List.getElem?_map] at heq
  obtain ⟨q, hq, hsig'⟩ := Option.map_eq_some_iff.1 heq
  have hi := (h.numbers _ i).2 ⟨q, hq, hsig'⟩
  rw [(h.numbers _ j).2 ⟨p, hp, hsig⟩] at hi
  exact hij.ne (Option.some.inj hi).symm

theorem Indexes.get?_numbers (h : s.Indexes t) : s.numbers.get? e.signature = t.find? e := by
  refine Option.ext fun id => ?_
  rw [h.numbers, h.isDistinct.find?_eq_some_iff]

theorem Indexes.length (h : s.Indexes t) : s.predicates.length = t.size := by
  rw [h.predicates, List.length_map, List.length_zipIdx, PredicateTable.size]

/-- A predicate stands at its number. -/
theorem Indexes.getElem? (h : s.Indexes t) (id : PredicateId) :
    s.predicates[id]? = (t.get? id).map fun e => (id, e) := by
  rw [h.predicates, List.getElem?_map, List.getElem?_zipIdx, Option.map_map, Nat.zero_add]
  rfl

/-- A predicate of a new signature is added to both structures. -/
theorem Indexes.add (h : s.Indexes t) (hnew : ∀ p ∈ t.predicates, p.signature ≠ e.signature) :
    Indexes ⟨s.numbers.insert e.signature t.size, s.predicates ++ [(t.size, e)]⟩
      ⟨t.predicates ++ [e]⟩ where
  predicates := by simp [h.predicates, PredicateTable.size, List.zipIdx_append]
  numbers signature id := by
    rw [SortedTable.get?_insert, PredicateTable.get?_concat]
    by_cases hid : id = t.size
    · rw [if_pos hid, hid]
      by_cases hsignature : signature = e.signature
      · rw [if_pos hsignature]
        exact iff_of_true rfl ⟨e, rfl, hsignature.symm⟩
      · rw [if_neg hsignature, h.numbers]
        refine iff_of_false ?_ ?_
        · rintro ⟨p, hp, -⟩
          exact absurd (List.getElem?_eq_some_iff.1 hp).1 (Nat.lt_irrefl _)
        · rintro ⟨p, hp, hsig⟩
          exact hsignature (Option.some.inj hp ▸ hsig).symm
    · rw [if_neg hid]
      by_cases hsignature : signature = e.signature
      · rw [if_pos hsignature]
        refine iff_of_false (fun he => hid (Option.some.inj he).symm) ?_
        rintro ⟨p, hp, hsig⟩
        exact hnew p (List.mem_of_getElem? hp) (hsig.trans hsignature)
      · rw [if_neg hsignature, h.numbers]

/-- Both tables give an expression one number, or both are full. -/
theorem Indexes.intern (h : s.Indexes t) (e : Expression) :
    (∃ id s' u, s.intern e = .ok (id, s') ∧ t.intern e = .ok (id, u) ∧ s'.Indexes u) ∨
      (s.intern e = .error .tooManyPredicates ∧ t.intern e = .error .tooManyPredicates) := by
  rw [SignatureIndex.intern, PredicateTable.intern, h.get?_numbers, h.length]
  cases hfind : t.find? e with
  | some id => exact .inl ⟨id, s, t, rfl, rfl, h⟩
  | none =>
    by_cases hsize : t.size < PredicateTable.capacity
    · exact .inl ⟨t.size, _, _, if_pos hsize, if_pos hsize, h.add (PredicateTable.find?_eq_none.1 hfind)⟩
    · exact .inr ⟨if_neg hsize, if_neg hsize⟩

/-! ### Compacting -/

theorem keep_eq (live : OrderedSet PredicateId) (next : PredicateId)
    (predicates : List (PredicateId × Expression)) :
    keep live next predicates = ((predicates.filter fun p => live.contains p.1).zipIdx next).map
      fun k => ⟨k.1.1, k.2, k.1.2⟩ := by
  induction predicates generalizing next with
  | nil => rfl
  | cons p rest ih =>
    rw [keep, List.filter_cons]
    split
    · rw [ih, List.zipIdx_cons, List.map_cons]
    · rw [ih]

theorem Indexes.filter_predicates (h : s.Indexes t) (live : OrderedSet PredicateId) :
    (s.predicates.filter fun p => live.contains p.1) =
      (t.predicates.zipIdx.filter fun p => live.contains p.2).map Prod.swap := by
  rw [h.predicates, List.filter_map]
  rfl

/-- The new numbers are those of the survivors. -/
theorem Indexes.renamed (h : s.Indexes t) (live : OrderedSet PredicateId) :
    (s.compacted live).2 = t.renumbering live := by
  have hrenamed : (s.compacted live).2 = (keep live 0 s.predicates).map fun k => (k.old, k.new) := rfl
  rw [hrenamed, keep_eq, h.filter_predicates, PredicateTable.renumbering, PredicateTable.survivors_eq,
    List.zipIdx_map, List.zipIdx_map, List.map_map, List.map_map]
  rfl

theorem Indexes.compacted (h : s.Indexes t) (live : OrderedSet PredicateId) :
    (s.compacted live).1.Indexes (t.compacted live) where
  predicates := by
    have hkept : (s.compacted live).1.predicates =
        (keep live 0 s.predicates).map fun k => (k.new, k.expression) := rfl
    rw [hkept, keep_eq, h.filter_predicates, PredicateTable.predicates_compacted_eq, List.zipIdx_map,
      List.zipIdx_map, List.map_map, List.map_map, List.map_map]
    rfl
  numbers signature new := by
    have hnumbers : (s.compacted live).1.numbers =
        s.numbers.filterMap fun old => (t.renumbering live).lookup old := by
      rw [← h.renamed]
      rfl
    rw [hnumbers, SortedTable.get?_filterMap, Option.bind_eq_some_iff, PredicateTable.get?_compacted_eq]
    simp only [h.numbers, PredicateTable.lookup_renumbering, Option.bind_eq_some_iff]
    constructor
    · rintro ⟨old, ⟨p, hp, hsig⟩, hnew⟩
      exact ⟨p, ⟨old, hnew, hp⟩, hsig⟩
    · rintro ⟨p, ⟨old, hnew, hp⟩, hsig⟩
      exact ⟨old, ⟨p, hp, hsig⟩, hnew⟩

end SignatureIndex

/-! ## Sequences of operations -/

/-- What is done to a table. -/
inductive TableOperation where
  | intern (e : Expression)
  | compact (live : OrderedSet PredicateId)

namespace PredicateTable

variable {t u : PredicateTable} {e p : Expression} {id : PredicateId} {live : OrderedSet PredicateId}
  {operations : List TableOperation}

def perform (t : PredicateTable) : TableOperation → Except Error PredicateTable
  | .intern e => (t.intern e).map (·.2)
  | .compact live => .ok (t.compacted live)

/-- The table after some operations, all of which succeed. -/
def run (t : PredicateTable) : List TableOperation → Except Error PredicateTable
  | [] => .ok t
  | operation :: rest =>
    match t.perform operation with
    | .ok u => u.run rest
    | .error e => .error e

/-- The only predicate that an operation adds is the one that is interned. -/
theorem mem_perform {operation : TableOperation} (h : t.perform operation = .ok u)
    (hp : p ∈ u.predicates) : p ∈ t.predicates ∨ operation = .intern p := by
  cases operation with
  | intern e =>
    rw [perform] at h
    cases hintern : t.intern e with
    | ok result =>
      rw [hintern] at h
      obtain rfl := Except.ok.inj h
      obtain ⟨-, -, hadded⟩ := intern_spec hintern
      exact (hadded p hp).imp_right fun he => congrArg _ he.symm
    | error _ =>
      rw [hintern] at h
      cases h
  | compact live =>
    obtain rfl := Except.ok.inj h
    exact .inl (mem_compacted hp)

theorem mem_run (h : t.run operations = .ok u) (hp : p ∈ u.predicates) :
    p ∈ t.predicates ∨ .intern p ∈ operations := by
  induction operations generalizing t with
  | nil =>
    obtain rfl := Except.ok.inj h
    exact .inl hp
  | cons operation rest ih =>
    rw [run] at h
    split at h
    · rename_i v hperform
      rcases ih h with hv | hrest
      · rcases mem_perform hperform hv with ht | rfl
        · exact .inl ht
        · exact .inr List.mem_cons_self
      · exact .inr (List.mem_cons_of_mem _ hrest)
    · cases h

theorem exists_perform (h : t.size < capacity) (operation : TableOperation) :
    ∃ u, t.perform operation = .ok u := by
  cases operation with
  | intern e =>
    rw [perform, intern]
    cases t.find? e with
    | some id => exact ⟨t, rfl⟩
    | none => exact ⟨⟨t.predicates ++ [e]⟩, by simp [h, Except.map]⟩
  | compact live => exact ⟨_, rfl⟩

/-- Operations succeed as long as the table does not become full. -/
theorem exists_run (h : ∀ done rest u, operations = done ++ rest → t.run done = .ok u →
    u.size < capacity) : ∃ u, t.run operations = .ok u := by
  induction operations generalizing t with
  | nil => exact ⟨t, rfl⟩
  | cons operation rest ih =>
    obtain ⟨u, hu⟩ := exists_perform (h [] _ t rfl rfl) operation
    rw [run, hu]
    refine ih fun done rest' v hrest hv => h (operation :: done) rest' v (congrArg _ hrest) ?_
    rw [run, hu]
    exact hv

end PredicateTable

namespace SignatureIndex

variable {s : SignatureIndex} {t : PredicateTable}

def perform (s : SignatureIndex) : TableOperation → Except Error SignatureIndex
  | .intern e => (s.intern e).map (·.2)
  | .compact live => .ok (s.compacted live).1

/-- Both structures after some operations, all of which succeed. -/
def run (s : SignatureIndex) : List TableOperation → Except Error SignatureIndex
  | [] => .ok s
  | operation :: rest =>
    match s.perform operation with
    | .ok s => s.run rest
    | .error e => .error e

theorem Indexes.perform (h : s.Indexes t) (operation : TableOperation) :
    (∃ s' u, s.perform operation = .ok s' ∧ t.perform operation = .ok u ∧ s'.Indexes u) ∨
      (s.perform operation = .error .tooManyPredicates ∧
        t.perform operation = .error .tooManyPredicates) := by
  cases operation with
  | intern e =>
    rw [SignatureIndex.perform, PredicateTable.perform]
    rcases h.intern e with ⟨id, s', u, hs, ht, h'⟩ | ⟨hs, ht⟩
    · rw [hs, ht]
      exact .inl ⟨s', u, rfl, rfl, h'⟩
    · rw [hs, ht]
      exact .inr ⟨rfl, rfl⟩
  | compact live => exact .inl ⟨_, _, rfl, rfl, h.compacted live⟩

/-- Both structures stay in step, whatever is done. -/
theorem Indexes.run (h : s.Indexes t) (operations : List TableOperation) :
    (∃ s' u, s.run operations = .ok s' ∧ t.run operations = .ok u ∧ s'.Indexes u) ∨
      (s.run operations = .error .tooManyPredicates ∧
        t.run operations = .error .tooManyPredicates) := by
  induction operations generalizing s t with
  | nil => exact .inl ⟨s, t, rfl, rfl, h⟩
  | cons operation rest ih =>
    rw [SignatureIndex.run, PredicateTable.run]
    rcases h.perform operation with ⟨s', u, hs, ht, h'⟩ | ⟨hs, ht⟩
    · rw [hs, ht]
      exact ih h'
    · rw [hs, ht]
      exact .inr ⟨rfl, rfl⟩

end SignatureIndex

/-! ## Equal up to the order of fields -/

/-- Expressions have one signature exactly if their JSON forms differ in the order of fields only. -/
theorem Expression.signature_eq_iff_reordered {e e' : Expression} (he : e.toJson.HasDistinctKeys)
    (he' : e'.toJson.HasDistinctKeys) :
    e.signature = e'.signature ↔ e.toJson.Reordered e'.toJson := by
  rw [← Json.sortKeys_eq_iff he he']
  exact ⟨fun h => Json.text_injective h, congrArg Json.text⟩

namespace PredicateTable

variable {s t u : PredicateTable} {e p : Expression} {i j id : PredicateId}
  {live : OrderedSet PredicateId} {operations : List TableOperation}

/-- What a table does with the next expression and with the next set of live numbers. -/
structure Interns (t : PredicateTable) : Prop where
  numbered : ∀ id, (∃ p, t.get? id = some p) ↔ id < t.size
  /-- A number that is in use is given to the predicates that differ in the order of fields only, and
  to no others. -/
  known_iff : ∀ e id, e.toJson.HasDistinctKeys →
    (t.intern e = .ok (id, t) ↔ ∃ p, t.get? id = some p ∧ p.toJson.Reordered e.toJson)
  /-- Any other predicate is added. -/
  added : ∀ e, e.toJson.HasDistinctKeys → (∀ p ∈ t.predicates, ¬ p.toJson.Reordered e.toJson) →
    t.size < capacity → t.intern e = .ok (t.size, ⟨t.predicates ++ [e]⟩)
  /-- The live predicates stay in their order. -/
  kept : ∀ live, (t.compacted live).predicates =
    (t.predicates.zipIdx.filter fun p => live.contains p.2).map (·.1)
  renamed : ∀ live old new, (t.renumbering live).lookup old = some new ↔
    old < t.size ∧ old ∈ live ∧ t.renumber live old = new
  /-- So no two of them get one number. -/
  ascending : ∀ live, StrictMonoOn (t.renumber live) {id | id < t.size ∧ id ∈ live}
  /-- A live predicate that is interned later, after any number of operations that keep it, has its new
  number still. -/
  survives : ∀ live id p e, t.get? id = some p → id ∈ live → e.toJson.HasDistinctKeys →
    p.toJson.Reordered e.toJson → ∀ u j, (t.compacted live).Slot (t.renumber live id) u j →
      u.intern e = .ok (j, u)
  /-- One that is not live is new when it is interned again. -/
  dropped : ∀ live id p e, t.get? id = some p → id ∉ live → e.toJson.HasDistinctKeys →
    p.toJson.Reordered e.toJson → ∀ operations u, (t.compacted live).run operations = .ok u →
      (∀ e', .intern e' ∈ operations → e'.toJson.HasDistinctKeys ∧ ¬ e'.toJson.Reordered e.toJson) →
      u.size < capacity → u.intern e = .ok (u.size, ⟨u.predicates ++ [e]⟩)

theorem intern_known_iff : t.intern e = .ok (id, t) ↔ t.find? e = some id := by
  rw [intern]
  cases t.find? e with
  | some i => simp
  | none =>
    refine iff_of_false (fun h => ?_) (by simp)
    by_cases hsize : t.size < capacity
    · have ht := (Prod.mk.inj (Except.ok.inj ((if_pos hsize).symm.trans h))).2
      have hlength := congrArg (fun t => t.predicates.length) ht
      simp at hlength
    · cases (if_neg hsize).symm.trans h

theorem intern_added (hnew : ∀ p ∈ t.predicates, p.signature ≠ e.signature)
    (hsize : t.size < capacity) : t.intern e = .ok (t.size, ⟨t.predicates ++ [e]⟩) := by
  rw [intern, find?_eq_none.2 hnew]
  exact if_pos hsize

theorem Slot.isDistinct (h : s.Slot i t j) (hs : s.IsDistinct) : t.IsDistinct := by
  induction h with
  | refl => exact hs
  | intern _ hintern ih => exact ih.intern hintern
  | compact _ _ ih => exact ih.compacted _

theorem renumber_strictMonoOn (t : PredicateTable) (live : OrderedSet PredicateId) :
    StrictMonoOn (t.renumber live) {id | id < t.size ∧ id ∈ live} := by
  rintro i ⟨hi, hi'⟩ j ⟨hj, hj'⟩ hij
  have hascending : (t.survivors live).Pairwise (· < ·) := List.pairwise_lt_range.filter _
  obtain ⟨hlt, hgeti⟩ := List.getElem?_eq_some_iff.1 (getElem?_survivors hi hi')
  obtain ⟨hlt', hgetj⟩ := List.getElem?_eq_some_iff.1 (getElem?_survivors hj hj')
  refine Nat.lt_of_not_le fun hle => ?_
  rcases Nat.lt_or_eq_of_le hle with h | h
  · have := List.pairwise_iff_getElem.1 hascending _ _ hlt' hlt h
    rw [hgeti, hgetj] at this
    exact Nat.lt_asymm hij this
  · exact hij.ne (renumber_injective ⟨hi, hi'⟩ ⟨hj, hj'⟩ h.symm)

/-- A table of distinct predicates does so. -/
theorem interns_of_isDistinct (h : t.IsDistinct)
    (hkeys : ∀ p ∈ t.predicates, p.toJson.HasDistinctKeys) : t.Interns where
  numbered id := by
    rw [get?, ← Option.isSome_iff_exists]
    simp [size]
  known_iff e id he := by
    rw [intern_known_iff, h.find?_eq_some_iff]
    refine exists_congr fun p => and_congr_right fun hp => ?_
    exact Expression.signature_eq_iff_reordered (hkeys p (List.mem_of_getElem? hp)) he
  added e he hnew hsize := by
    refine intern_added (fun p hp hsig => hnew p hp ?_) hsize
    exact (Expression.signature_eq_iff_reordered (hkeys p hp) he).1 hsig
  kept := t.predicates_compacted_eq
  renamed live old new := by
    rw [lookup_renumbering]
    constructor
    · intro hnew
      obtain ⟨hlt, hlive⟩ := mem_survivors.1 (List.mem_of_getElem? hnew)
      refine ⟨hlt, hlive, ?_⟩
      rw [renumber, lookup_renumbering.2 hnew]
      rfl
    · rintro ⟨hlt, hlive, rfl⟩
      exact getElem?_survivors hlt hlive
  ascending := t.renumber_strictMonoOn
  survives live id p e hp hlive he hreordered u j hslot := by
    have hlt := (List.getElem?_eq_some_iff.1 hp).1
    have hsig := (Expression.signature_eq_iff_reordered (hkeys p (List.mem_of_getElem? hp)) he).2
      hreordered
    have hget := hslot.get? ((get?_compacted hlt hlive).trans hp)
    exact intern_known_iff.2 ((hslot.isDistinct (h.compacted live)).find? hget hsig)
  dropped live id p e hp hlive he hreordered operations u hrun hothers hsize := by
    have hsig := (Expression.signature_eq_iff_reordered (hkeys p (List.mem_of_getElem? hp)) he).2
      hreordered
    refine intern_added (fun q hq hsig' => ?_) hsize
    rcases mem_run hrun hq with hq | hq
    · obtain ⟨k, hk, hget⟩ := List.mem_filterMap.1 hq
      obtain rfl := h.eq_of_signature hget hp (hsig'.trans hsig.symm)
      exact hlive (mem_survivors.1 hk).2
    · obtain ⟨hdistinct, hnot⟩ := hothers q hq
      exact hnot ((Expression.signature_eq_iff_reordered hdistinct he).1 hsig')

/-- After any sequence of operations a table interns every predicate once and keeps exactly the live ones
in their order, and its two structures are in step, every predicate at its number. The sequence succeeds
as long as the table does not become full. -/
theorem interning (operations : List TableOperation)
    (hkeys : ∀ e, .intern e ∈ operations → e.toJson.HasDistinctKeys) :
    (∀ t, empty.run operations = .ok t → t.Interns ∧
      ∃ s, SignatureIndex.empty.run operations = .ok s ∧ s.Indexes t ∧
        (∀ id (entry : PredicateId × Expression), s.predicates[id]? = some entry → entry.1 = id) ∧
        ∀ live, (s.compacted live).1.Indexes (t.compacted live) ∧
          (s.compacted live).2 = t.renumbering live) ∧
      ((∀ done rest u, operations = done ++ rest → empty.run done = .ok u → u.size < capacity) →
        ∃ t, empty.run operations = .ok t) := by
  refine ⟨fun t hrun => ?_, exists_run⟩
  rcases SignatureIndex.indexes_empty.run operations with ⟨s, u, hs, hu, h⟩ | ⟨-, hfull⟩
  · obtain rfl := Except.ok.inj (hrun.symm.trans hu)
    have hdistinct (p : Expression) (hp : p ∈ t.predicates) : p.toJson.HasDistinctKeys :=
      (mem_run hrun hp).elim nofun (hkeys p)
    refine ⟨interns_of_isDistinct h.isDistinct hdistinct, s, hs, h, fun id entry hentry => ?_,
      fun live => ⟨h.compacted live, h.renamed live⟩⟩
    rw [h.getElem?] at hentry
    obtain ⟨e, -, rfl⟩ := Option.map_eq_some_iff.1 hentry
    rfl
  · exact nomatch hrun.symm.trans hfull

/-- An object with two fields, in both orders. -/
def pairLiteral (swapped : Bool) : Expression :=
  .ofLiteral (.object (if swapped then [("b", .bool true), ("a", .null)]
    else [("a", .null), ("b", .bool true)]))

theorem pairLiteral_hasDistinctKeys (swapped : Bool) :
    (pairLiteral swapped).toJson.HasDistinctKeys := by
  cases swapped <;>
    simp [pairLiteral, Expression.ofLiteral, Expression.toJson, Head.toJson, tailFields, Json.form,
      stepsJson, Json.HasDistinctKeys, Json.FieldsHaveDistinctKeys, Json.ItemsHaveDistinctKeys,
      Entries.keys]

/-- Both orders are one predicate, which is kept as long as it is live. -/
theorem interning_pairLiteral :
    (∀ e, TableOperation.intern e ∈ [.intern (pairLiteral false), .intern (pairLiteral true),
        .compact (.ofList [0])] → e.toJson.HasDistinctKeys) ∧
      empty.run [.intern (pairLiteral false), .intern (pairLiteral true), .compact (.ofList [0])] =
        .ok ⟨[pairLiteral false]⟩ ∧
      Interns ⟨[pairLiteral false]⟩ := by
  have hkeys (e : Expression) (he : TableOperation.intern e ∈ [.intern (pairLiteral false),
      .intern (pairLiteral true), .compact (.ofList [0])]) : e.toJson.HasDistinctKeys := by
    simp only [List.mem_cons, TableOperation.intern.injEq, List.not_mem_nil, or_false, reduceCtorEq] at he
    rcases he with rfl | rfl
    · exact pairLiteral_hasDistinctKeys false
    · exact pairLiteral_hasDistinctKeys true
  have hsig : (pairLiteral false).signature = (pairLiteral true).signature := by
    refine Expression.signature_eq_iff.2 ?_
    simp [pairLiteral, Expression.ofLiteral, Expression.sortLiterals, Head.sortLiterals, Json.sortKeys,
      Json.sortKeysFields, SortedTable.place, -String.lt_iff_ltb]
  have hrun : empty.run [.intern (pairLiteral false), .intern (pairLiteral true),
      .compact (.ofList [0])] = .ok ⟨[pairLiteral false]⟩ := by
    have hfirst : empty.intern (pairLiteral false) = .ok (0, ⟨[pairLiteral false]⟩) := rfl
    simp only [run, perform, hfirst, Except.map, Expression.intern_of_signature_eq hsig]
    rfl
  exact ⟨hkeys, hrun, ((interning _ hkeys).1 _ hrun).1⟩

end PredicateTable
end PolicyDecision
