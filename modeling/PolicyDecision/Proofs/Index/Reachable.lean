import PolicyDecision.Index.Canonical
import PolicyDecision.Proofs.Index.Compilation
import PolicyDecision.Proofs.Index.Tables

/-!
# PolicyDecision.Proofs.Index.Reachable

The indexes that accepted batches of updates lead to.

* `CanonicalIndex.applyEach`: the index after several batches.
* `PredicateTable.get?_compacted`, `renumber_injective`: dropping predicates renumbers the remaining
  ones and keeps them apart.
* `IndexedDocument.IsLinked`: what a document is worth beside the predicates of its index.
* `Publications.apply_cases`, `CanonicalIndex.apply_spec`: what an update and a batch can do.
* `Publications.applyAll_induction`, `CanonicalIndex.applyEach_induction`: what each of them keeps holds
  in the end.
* `CanonicalIndex.isCoherent_of_applyEach`: in every such index each document is linked, and the tables
  are those of the documents.
-/

namespace PolicyDecision

/-- The index after several batches, all of which are accepted. -/
def CanonicalIndex.applyEach (index : CanonicalIndex) :
    List UpdateBatch → Except Error CanonicalIndex
  | [] => .ok index
  | batch :: rest =>
    match index.apply batch with
    | .ok index => index.applyEach rest
    | .error e => .error e

/-! ## Dropping predicates -/

namespace PredicateTable

variable {t : PredicateTable} {live : OrderedSet PredicateId} {i j : PredicateId}

theorem mem_survivors : i ∈ t.survivors live ↔ i < t.size ∧ i ∈ live := by
  simp [survivors, OrderedSet.contains_iff]

theorem lookup_zipIdx {ids : List PredicateId} {k : Nat} (h : i ∈ ids) :
    ∃ n, ids[n]? = some i ∧ (ids.zipIdx k).lookup i = some (k + n) := by
  induction ids generalizing k with
  | nil => cases h
  | cons a rest ih =>
    rw [List.zipIdx_cons, List.lookup_cons]
    split
    · rename_i he
      obtain rfl : i = a := by simpa using he
      exact ⟨0, rfl, rfl⟩
    · rename_i he
      have hne : i ≠ a := by simpa using he
      obtain ⟨n, hn, hl⟩ := ih (k := k + 1) ((List.mem_cons.1 h).resolve_left hne)
      refine ⟨n + 1, hn, hl.trans (congrArg some ?_)⟩
      omega

/-- A survivor stands at its new number. -/
theorem getElem?_survivors (hlt : i < t.size) (hi : i ∈ live) :
    (t.survivors live)[t.renumber live i]? = some i := by
  obtain ⟨n, hn, hl⟩ := lookup_zipIdx (k := 0) (mem_survivors.2 ⟨hlt, hi⟩)
  rw [renumber, renumbering, hl]
  simpa using hn

theorem renumber_injective (hi : i < t.size ∧ i ∈ live) (hj : j < t.size ∧ j ∈ live)
    (h : t.renumber live i = t.renumber live j) : i = j := by
  have hget := getElem?_survivors hi.1 hi.2
  rw [h, getElem?_survivors hj.1 hj.2] at hget
  exact (Option.some.inj hget).symm

theorem survivors_nodup (t : PredicateTable) (live : OrderedSet PredicateId) :
    (t.survivors live).Nodup := List.nodup_range.filter _

theorem get?_of_mem_survivors (h : i ∈ t.survivors live) :
    t.get? i = some ((t.get? i).getD default) := by
  rw [get?, List.getElem?_eq_getElem (mem_survivors.1 h).1]
  rfl

theorem predicates_compacted (t : PredicateTable) (live : OrderedSet PredicateId) :
    (t.compacted live).predicates =
      (t.survivors live).map fun k => (t.get? k).getD default := by
  rw [compacted, ← List.filterMap_eq_map]
  exact List.filterMap_congr fun k hk => get?_of_mem_survivors hk

theorem get?_compacted (hlt : i < t.size) (hi : i ∈ live) :
    (t.compacted live).get? (t.renumber live i) = t.get? i := by
  rw [get?, predicates_compacted, List.getElem?_map, getElem?_survivors hlt hi,
    get?_of_mem_survivors (mem_survivors.2 ⟨hlt, hi⟩)]
  rfl

theorem mem_compacted {p : Expression} (h : p ∈ (t.compacted live).predicates) :
    p ∈ t.predicates := by
  obtain ⟨k, _, hp⟩ := List.mem_filterMap.1 h
  exact List.mem_of_getElem? hp

end PredicateTable

/-! ## Documents -/

/-- The predicates of the target of a document. -/
def Document.leaves (d : Document) : List Expression :=
  match d.target with
  | none => []
  | some e => e.leaves d.imports

/-- The truth value of the target of a document; without a target it holds. -/
def Document.verdict (d : Document) (truth : Expression → Option Bool) : Option Bool :=
  match d.target with
  | none => some true
  | some e => e.verdict d.imports truth

namespace IndexedDocument

/-- The formula of a document is reduced, each of its predicates is in the table and stands for a leaf
of the target, and the formula confirms the truth value of the target. A document that could not be
compiled has the formula `true`. -/
structure IsLinked (table : PredicateTable) (d : IndexedDocument) : Prop where
  reduced : d.formula.IsReduced
  linked : ∀ id ∈ d.formula.predicates,
    ∃ p, table.get? id = some p ∧ ∃ l ∈ d.document.leaves, p.signature = l.signature
  decides : d.compileError = none → ∀ truth : String → Option Bool,
    d.formula.Decides (table.signed truth) (d.document.verdict fun l => truth l.signature)
  always : d.compileError.isSome → d.formula = .constant true

variable {t u : PredicateTable} {d : IndexedDocument}

theorem IsLinked.lt (h : d.IsLinked t) {id : PredicateId} (hid : id ∈ d.formula.predicates) :
    id < t.size := by
  obtain ⟨p, hp, -⟩ := h.linked id hid
  exact (List.getElem?_eq_some_iff.1 hp).1

/-- The formula of a document that has no target or cannot be compiled. -/
theorem IsLinked.constant {e : Option Error} {d : Document} (h : e = none → d.target = none) :
    IsLinked t ⟨d, .constant true, e⟩ where
  reduced := Formula.isReduced_constant true
  linked _ hid := absurd hid (Formula.not_mem_predicates_constant true)
  decides he truth := by
    rw [Document.verdict, h he]
    exact Formula.decides_constant true
  always _ := rfl

/-- More predicates change nothing. -/
theorem IsLinked.extend (h : d.IsLinked t) (hext : t.Extends u) : d.IsLinked u where
  reduced := h.reduced
  linked id hid := by
    obtain ⟨p, hp, hl⟩ := h.linked id hid
    exact ⟨p, hext.get? hp, hl⟩
  decides hc truth := (h.decides hc truth).congr fun id hid => by
    obtain ⟨p, hp, -⟩ := h.linked id hid
    exact hext.signed hp truth
  always := h.always

/-- Neither does dropping predicates that the formula does not have. -/
theorem IsLinked.compact (h : d.IsLinked t) {live : OrderedSet PredicateId}
    (hlive : ∀ id ∈ d.formula.predicates, id ∈ live) :
    (d.rename (t.renumber live)).IsLinked (t.compacted live) where
  reduced := h.reduced.rename fun i hi j hj he =>
    PredicateTable.renumber_injective ⟨h.lt hi, hlive i hi⟩ ⟨h.lt hj, hlive j hj⟩ he
  linked id hid := by
    obtain ⟨i, hi, rfl⟩ := Formula.mem_rename_predicates.1 hid
    obtain ⟨p, hp, hl⟩ := h.linked i hi
    exact ⟨p, (PredicateTable.get?_compacted (h.lt hi) (hlive i hi)).trans hp, hl⟩
  decides hc truth := Formula.Decides.rename <| (h.decides hc truth).congr fun id hid => by
    rw [PredicateTable.signed, PredicateTable.signed,
      PredicateTable.get?_compacted (h.lt hid) (hlive id hid)]
  always hc := by
    show d.formula.rename _ = .constant true
    rw [h.always hc]
    exact Formula.rename_constant _ true

end IndexedDocument

/-- Compiling a document links it; the table gets leaves of it at its end. -/
theorem CanonicalIndex.compile_spec (maxClauses : Nat) (d : Document) (t : PredicateTable) :
    (compile maxClauses d t).1.document = d ∧
      (compile maxClauses d t).1.IsLinked (compile maxClauses d t).2 ∧
      t.Extends (compile maxClauses d t).2 ∧
      ∀ p ∈ (compile maxClauses d t).2.predicates, p ∈ t.predicates ∨ p ∈ d.leaves := by
  have hadded (e : Expression) (he : d.target = some e) (u : PredicateTable)
      (h : ∀ p ∈ u.predicates, p ∈ t.predicates ∨ p ∈ e.leaves d.imports) :
      ∀ p ∈ u.predicates, p ∈ t.predicates ∨ p ∈ d.leaves := by
    simpa only [Document.leaves, he] using h
  unfold compile compileTarget
  cases ht : d.target with
  | none => exact ⟨rfl, .constant (fun _ => ht), .refl t, fun p hp => .inl hp⟩
  | some e =>
    dsimp only
    by_cases hf : e.containsFinder = true
    · rw [if_pos hf]
      exact ⟨rfl, .constant nofun, .refl t, fun p hp => .inl hp⟩
    · rw [if_neg hf]
      have hc := Expression.isCompiled_compile d.imports maxClauses e t
      rcases hr : e.compile d.imports maxClauses t with ⟨_ | f, u⟩
      · rw [hr] at hc
        exact ⟨rfl, .constant nofun, hc.extended, hadded e ht u hc.added⟩
      · rw [hr] at hc
        refine ⟨rfl, ⟨hc.reduced f rfl, ?_, fun _ truth => ?_, nofun⟩, hc.extended,
          hadded e ht u hc.added⟩
        · simpa only [Document.leaves, ht] using hc.linked f rfl
        · simpa only [Document.verdict, ht] using hc.decides f rfl truth

/-- A predicate is referenced if some formula has it. -/
theorem CanonicalIndex.mem_referenced {documents : SortedTable IndexedDocument}
    {id : PredicateId} :
    id ∈ referenced documents ↔ ∃ b ∈ documents.entries, id ∈ b.2.formula.predicates := by
  rw [referenced, OrderedSet.mem_ofList, SortedTable.values, List.flatMap_map]
  exact List.mem_flatMap

/-! ## Publications -/

/-- The documents that updates publish. -/
def Update.published : List Update → List Document
  | [] => []
  | .publish d :: rest => d :: published rest
  | _ :: rest => published rest

theorem Update.mem_published {updates : List Update} {d : Document} :
    d ∈ published updates ↔ .publish d ∈ updates := by
  induction updates with
  | nil => simp [published]
  | cons u rest ih => cases u <;> simp [published, ih]

namespace Publications

section

variable {σ α : Type} {compile : Document → σ → α × σ} {p q : Publications σ α}

/-- What an update can do. -/
theorem apply_cases {u : Update} (h : p.apply compile u = .ok q) :
    (∃ d, u = .publish d ∧ (∀ b ∈ p.documents.entries, b.1 ≠ d.name) ∧
      q = { p with documents := p.documents.insert d.name (compile d p.state).1
                   state := (compile d p.state).2 }) ∨
    (∃ name, u = .withdraw name ∧ q = { p with documents := p.documents.erase name }) ∨
    ((u = .markConsistent ∨ u = .markInconsistent) ∧
      q.documents = p.documents ∧ q.state = p.state) := by
  cases u with
  | publish d =>
    rw [apply] at h
    split at h
    · cases h
    · rename_i hnot
      refine .inl ⟨d, rfl, fun b hb he => hnot (SortedTable.contains_iff.2 ⟨b, hb, he⟩), ?_⟩
      exact (Except.ok.inj h).symm
  | withdraw name => exact .inr (.inl ⟨name, rfl, (Except.ok.inj h).symm⟩)
  | markConsistent =>
    cases h
    exact .inr (.inr ⟨.inl rfl, rfl, rfl⟩)
  | markInconsistent =>
    cases h
    exact .inr (.inr ⟨.inr rfl, rfl, rfl⟩)

/-- What every update keeps holds after all of them. -/
theorem applyAll_induction {updates : List Update} (done : List Update)
    {motive : List Update → Publications σ α → Prop}
    (hstep : ∀ done p u q, u ∈ updates → motive done p → p.apply compile u = .ok q →
      motive (done ++ [u]) q)
    (hp : motive done p) (h : p.applyAll compile updates = .ok q) :
    motive (done ++ updates) q := by
  induction updates generalizing done p with
  | nil =>
    cases h
    rwa [List.append_nil]
  | cons u rest ih =>
    rw [applyAll] at h
    split at h
    · rename_i r hr
      rw [List.append_cons]
      exact ih _ (fun done p v q hv => hstep done p v q (.tail _ hv))
        (hstep done p u r (.head _) hp hr) h
    · cases h

end

/-- Documents are listed under their names and linked; their leaves and the predicates of the table
are known. -/
structure IsCoherent (known : Expression → Prop)
    (p : Publications PredicateTable IndexedDocument) : Prop where
  named : ∀ b ∈ p.documents.entries, b.2.document.name = b.1
  linked : ∀ b ∈ p.documents.entries, b.2.IsLinked p.state
  leaves : ∀ b ∈ p.documents.entries, ∀ l ∈ b.2.document.leaves, known l
  predicates : ∀ e ∈ p.state.predicates, known e

variable {known : Expression → Prop} {p q : Publications PredicateTable IndexedDocument}
  {maxClauses : Nat}

theorem IsCoherent.publish (h : p.IsCoherent known) {d : Document} (hd : ∀ l ∈ d.leaves, known l) :
    IsCoherent known
      { p with documents := p.documents.insert d.name (CanonicalIndex.compile maxClauses d p.state).1
               state := (CanonicalIndex.compile maxClauses d p.state).2 } := by
  obtain ⟨hdoc, hlinked, hext, hadded⟩ := CanonicalIndex.compile_spec maxClauses d p.state
  have hentry {b : String × IndexedDocument} (hb : b ∈ (p.documents.insert d.name
      (CanonicalIndex.compile maxClauses d p.state).1).entries) :
      b = (d.name, (CanonicalIndex.compile maxClauses d p.state).1) ∨ b ∈ p.documents.entries :=
    SortedTable.mem_entries_insert hb
  constructor
  case named =>
    intro b hb
    rcases hentry hb with rfl | hb
    · rw [hdoc]
    · exact h.named b hb
  case linked =>
    intro b hb
    rcases hentry hb with rfl | hb
    · exact hlinked
    · exact (h.linked b hb).extend hext
  case leaves =>
    intro b hb
    rcases hentry hb with rfl | hb
    · rwa [hdoc]
    · exact h.leaves b hb
  case predicates => exact fun e he => (hadded e he).elim (h.predicates e) (hd e)

theorem IsCoherent.apply (h : p.IsCoherent known) {u : Update}
    (hu : ∀ d, u = .publish d → ∀ l ∈ d.leaves, known l)
    (he : p.apply (CanonicalIndex.compile maxClauses) u = .ok q) : q.IsCoherent known := by
  rcases apply_cases he with ⟨d, rfl, -, rfl⟩ | ⟨name, rfl, rfl⟩ | ⟨-, hdocs, hstate⟩
  · exact h.publish (hu d rfl)
  · have hmem {b : String × IndexedDocument} (hb : b ∈ (p.documents.erase name).entries) :
        b ∈ p.documents.entries := (SortedTable.mem_entries_erase.1 hb).1
    exact ⟨fun b hb => h.named b (hmem hb), fun b hb => h.linked b (hmem hb),
      fun b hb => h.leaves b (hmem hb), h.predicates⟩
  · obtain ⟨documents, state, consistent⟩ := q
    cases hdocs
    cases hstate
    exact ⟨h.named, h.linked, h.leaves, h.predicates⟩

theorem IsCoherent.applyAll (h : p.IsCoherent known) {updates : List Update}
    (hu : ∀ d ∈ Update.published updates, ∀ l ∈ d.leaves, known l)
    (he : p.applyAll (CanonicalIndex.compile maxClauses) updates = .ok q) : q.IsCoherent known := by
  have hstep (_ : List Update) (p : Publications PredicateTable IndexedDocument) (u : Update)
      (q : Publications PredicateTable IndexedDocument) (hmem : u ∈ updates)
      (h : p.IsCoherent known) (he : p.apply (CanonicalIndex.compile maxClauses) u = .ok q) :
      q.IsCoherent known :=
    h.apply (fun d hd => hu d (Update.mem_published.2 (hd ▸ hmem))) he
  exact applyAll_induction [] (motive := fun _ p => p.IsCoherent known) hstep h he

theorem IsCoherent.formulas_reduced (h : p.IsCoherent known) {d : String × Formula}
    (hd : d ∈ CanonicalIndex.formulas p.documents) : d.2.IsReduced := by
  obtain ⟨b, hb, rfl⟩ := List.mem_map.1 hd
  exact (h.linked b hb).reduced

theorem IsCoherent.compact (h : p.IsCoherent known) : (CanonicalIndex.compact p).IsCoherent known := by
  unfold CanonicalIndex.compact
  dsimp only
  split
  · constructor
    case named =>
      intro b hb
      obtain ⟨a, ha, rfl⟩ := SortedTable.mem_entries_map.1 hb
      exact h.named a ha
    case linked =>
      intro b hb
      obtain ⟨a, ha, rfl⟩ := SortedTable.mem_entries_map.1 hb
      exact (h.linked a ha).compact fun id hid => CanonicalIndex.mem_referenced.2 ⟨a, ha, hid⟩
    case leaves =>
      intro b hb
      obtain ⟨a, ha, rfl⟩ := SortedTable.mem_entries_map.1 hb
      exact h.leaves a ha
    case predicates => exact fun e he => h.predicates e (PredicateTable.mem_compacted he)
  · exact h

end Publications

/-! ## Indexes -/

namespace CanonicalIndex

theorem formulas_map_snd (documents : SortedTable IndexedDocument) :
    (formulas documents).map (·.2) = documents.values.map (·.formula) := by
  simp [formulas, SortedTable.values, Function.comp_def]

/-- Documents that are listed under their names. -/
theorem values_map_name {documents : SortedTable IndexedDocument}
    (h : ∀ b ∈ documents.entries, b.2.document.name = b.1) :
    documents.values.map (·.document.name) = documents.keys := by
  rw [SortedTable.values, SortedTable.keys, List.map_map]
  exact List.map_congr_left h

/-- What a batch makes of an index. -/
theorem apply_spec {index next : CanonicalIndex} {batch : UpdateBatch}
    (he : index.apply batch = .ok next) :
    ∃ p, index.publications.applyAll (compile index.maxClauses) batch.updates = .ok p ∧
      next.publications = compact p ∧
      next.tables = .build (formulas next.documents) index.strategy ∧
      next.maxClauses = index.maxClauses ∧ next.strategy = index.strategy := by
  rw [apply] at he
  split at he
  · cases he
  · rename_i p hp
    cases he
    exact ⟨p, hp, rfl, rfl, rfl, rfl⟩

/-- What every batch keeps holds after all of them. -/
theorem applyEach_induction {index next : CanonicalIndex} {batches : List UpdateBatch}
    (done : List UpdateBatch) {motive : List UpdateBatch → CanonicalIndex → Prop}
    (hstep : ∀ done index batch next, batch ∈ batches → motive done index →
      index.apply batch = .ok next → motive (done ++ [batch]) next)
    (h : motive done index) (he : index.applyEach batches = .ok next) :
    motive (done ++ batches) next := by
  induction batches generalizing done index with
  | nil =>
    cases he
    rwa [List.append_nil]
  | cons batch rest ih =>
    rw [applyEach] at he
    split at he
    · rename_i index' hindex
      rw [List.append_cons]
      exact ih _ (fun done index b next hb => hstep done index b next (.tail _ hb))
        (hstep done index batch index' (.head _) h hindex) he
    · cases he

/-- The documents of the index are coherent with its predicates, and the tables are theirs. -/
structure IsCoherent (known : Expression → Prop) (index : CanonicalIndex) : Prop where
  publications : index.publications.IsCoherent known
  tables : index.tables = .layout (formulas index.documents) index.strategy

variable {known : Expression → Prop} {index next : CanonicalIndex} {batch : UpdateBatch}
  {batches : List UpdateBatch}

theorem isCoherent_empty (maxClauses : Nat) (strategy : OrderStrategy) :
    (empty maxClauses strategy).IsCoherent known where
  publications := ⟨nofun, nofun, nofun, nofun⟩
  tables := by
    rw [← MatchingTables.build_eq_layout]
    · exact (MatchingTables.build_nil strategy).symm
    · exact fun d hd => absurd hd List.not_mem_nil

theorem IsCoherent.apply (h : index.IsCoherent known)
    (hu : ∀ d ∈ Update.published batch.updates, ∀ l ∈ d.leaves, known l)
    (he : index.apply batch = .ok next) : next.IsCoherent known := by
  obtain ⟨p, hp, hpublications, htables, -, hstrategy⟩ := apply_spec he
  have hcoherent : next.publications.IsCoherent known := by
    rw [hpublications]
    exact (h.publications.applyAll hu hp).compact
  refine ⟨hcoherent, ?_⟩
  have hreduced : ∀ d ∈ formulas next.documents, d.2.IsReduced := fun _ hd =>
    hcoherent.formulas_reduced hd
  rw [htables, hstrategy, MatchingTables.build_eq_layout hreduced]

/-- The documents that batches publish. -/
def published (batches : List UpdateBatch) : List Document :=
  batches.flatMap fun b => Update.published b.updates

theorem isCoherent_of_applyEach {maxClauses : Nat} {strategy : OrderStrategy}
    (he : (empty maxClauses strategy).applyEach batches = .ok index) :
    index.IsCoherent fun e => ∃ d ∈ published batches, e ∈ d.leaves := by
  have hstep (_ : List UpdateBatch) (index : CanonicalIndex) (batch : UpdateBatch)
      (next : CanonicalIndex) (hmem : batch ∈ batches)
      (h : index.IsCoherent fun e => ∃ d ∈ published batches, e ∈ d.leaves)
      (he : index.apply batch = .ok next) :
      next.IsCoherent fun e => ∃ d ∈ published batches, e ∈ d.leaves :=
    h.apply (fun d hd l hl => ⟨d, List.mem_flatMap.2 ⟨batch, hmem, hd⟩, hl⟩) he
  exact applyEach_induction []
    (motive := fun _ index => index.IsCoherent fun e => ∃ d ∈ published batches, e ∈ d.leaves)
    hstep (isCoherent_empty maxClauses strategy) he

/-- What the documents make of the tables is complete. -/
theorem IsCoherent.closed (h : index.IsCoherent known) :
    MatchingTables.Closed (formulas index.documents) index.predicates where
  reduced _ hd := h.publications.formulas_reduced hd
  numbered b hb id hid := by
    obtain ⟨a, ha, rfl⟩ := List.mem_map.1 hb
    exact (h.publications.linked a ha).lt hid

end CanonicalIndex
end PolicyDecision
