import PolicyDecision.Index.DocumentIndex
import PolicyDecision.Proofs.Index.History
import PolicyDecision.Proofs.Index.Refinement
import PolicyDecision.Retrieval.Point

/-!
# PolicyDecision.Proofs.Index.Protocol

What batches of updates do to an index, of whatever kind.

The documents of an index are a map from names to documents, and the updates of a batch change this
map one after the other. A batch is refused if one of its documents is published under a name that is
in the map then.

* `Update.changed`, `Update.lastMark?`: documents and marks, as the updates alone say.
* `Update.Collides`, `Update.CollidesFirst`: a document that is published under a name in use.
* `Publications.applyAll_eq_error_iff`, `Publications.shown_of_applyAll`: all updates of a batch.
* `DocumentIndex.apply_eq_error_iff`, `DocumentIndex.apply_ok`: a batch on an index.
* `RetrievalPoint.offer`: batches that are offered one after the other, some of which are refused.
* `RetrievalPoint.offer_protocol`: points over both kinds of index answer alike and serve the same
  documents.
-/

namespace PolicyDecision

/-! ## Updates alone -/

namespace Update

/-- The documents by name after an update. -/
def change (documents : String → Option Document) : Update → String → Option Document
  | .publish d => fun name => if name = d.name then some d else documents name
  | .withdraw withdrawn => fun name => if name = withdrawn then none else documents name
  | .markConsistent | .markInconsistent => documents

/-- The documents by name after some updates in their order. -/
def changed (documents : String → Option Document) (updates : List Update) :
    String → Option Document := updates.foldl change documents

def mark? : Update → Option Bool
  | .markConsistent => some true
  | .markInconsistent => some false
  | .publish _ | .withdraw _ => none

/-- What the last mark says. -/
def lastMark? (updates : List Update) : Option Bool := (updates.filterMap mark?).getLast?

/-- A document is published under a name that is in use after the updates before. -/
def Collides (documents : String → Option Document) (updates : List Update) (d : Document) : Prop :=
  ∃ before after, updates = before ++ .publish d :: after ∧
    (changed documents before d.name).isSome

/-- The first such document. -/
def CollidesFirst (documents : String → Option Document) (updates : List Update) (d : Document) :
    Prop :=
  ∃ before after, updates = before ++ .publish d :: after ∧
    (changed documents before d.name).isSome ∧ ∀ e, ¬ Collides documents before e

variable {documents : String → Option Document} {u : Update} {updates : List Update} {d : Document}

theorem not_collides_nil : ¬ Collides documents [] d := by
  rintro ⟨before, after, he, -⟩
  simp at he

theorem collides_cons : Collides documents (u :: updates) d ↔
    (u = .publish d ∧ (documents d.name).isSome) ∨ Collides (u.change documents) updates d := by
  constructor
  · rintro ⟨before, after, he, hsome⟩
    cases before with
    | nil =>
      obtain ⟨rfl, -⟩ := List.cons.inj he
      exact .inl ⟨rfl, hsome⟩
    | cons v before =>
      obtain ⟨rfl, rfl⟩ := List.cons.inj he
      exact .inr ⟨before, after, rfl, hsome⟩
  · rintro (⟨rfl, hsome⟩ | ⟨before, after, rfl, hsome⟩)
    · exact ⟨[], updates, rfl, hsome⟩
    · exact ⟨u :: before, after, rfl, hsome⟩

theorem collidesFirst_cons : CollidesFirst documents (u :: updates) d ↔
    (u = .publish d ∧ (documents d.name).isSome) ∨
      ((∀ e, ¬ (u = .publish e ∧ (documents e.name).isSome)) ∧
        CollidesFirst (u.change documents) updates d) := by
  constructor
  · rintro ⟨before, after, he, hsome, hfirst⟩
    cases before with
    | nil =>
      obtain ⟨rfl, -⟩ := List.cons.inj he
      exact .inl ⟨rfl, hsome⟩
    | cons v before =>
      obtain ⟨rfl, rfl⟩ := List.cons.inj he
      exact .inr ⟨fun e h => hfirst e (collides_cons.2 (.inl h)), before, after, rfl, hsome,
        fun e h => hfirst e (collides_cons.2 (.inr h))⟩
  · rintro (⟨rfl, hsome⟩ | ⟨hu, before, after, rfl, hsome, hfirst⟩)
    · exact ⟨[], updates, rfl, hsome, fun e => not_collides_nil⟩
    · exact ⟨u :: before, after, rfl, hsome,
        fun e h => (collides_cons.1 h).elim (hu e) (hfirst e)⟩

/-- Where documents collide, one of them is the first. -/
theorem exists_collidesFirst : (∃ d, Collides documents updates d) ↔
    ∃ d, CollidesFirst documents updates d := by
  constructor
  · induction updates generalizing documents with
    | nil => exact fun ⟨d, h⟩ => absurd h not_collides_nil
    | cons u rest ih =>
      rintro ⟨d, h⟩
      by_cases hu : ∃ e, u = .publish e ∧ (documents e.name).isSome
      · obtain ⟨e, he⟩ := hu
        exact ⟨e, collidesFirst_cons.2 (.inl he)⟩
      · have hrest := (collides_cons.1 h).resolve_left fun he => hu ⟨d, he⟩
        obtain ⟨e, he⟩ := ih ⟨d, hrest⟩
        exact ⟨e, collidesFirst_cons.2 (.inr ⟨fun e he => hu ⟨e, he⟩, he⟩)⟩
  · rintro ⟨d, before, after, he, hsome, -⟩
    exact ⟨d, before, after, he, hsome⟩

theorem lastMark?_append (before after : List Update) :
    lastMark? (before ++ after) = (lastMark? after).or (lastMark? before) := by
  rw [lastMark?, List.filterMap_append, List.getLast?_append]
  rfl

end Update

/-! ## Publications -/

namespace Publications

variable {σ α : Type} {compile : Document → σ → α × σ} {p q : Publications σ α}
  {document : α → Document}

/-- The documents by name. -/
def shown (document : α → Document) (p : Publications σ α) : String → Option Document := fun name =>
  (p.documents.get? name).map document

theorem shown_contains (name : String) :
    (p.shown document name).isSome = p.documents.contains name := by
  rw [shown, Option.isSome_map]
  rfl

theorem apply_eq_error_iff {u : Update} {e : Error} : p.apply compile u = .error e ↔
    ∃ d, (u = .publish d ∧ (p.shown document d.name).isSome) ∧ e = .nameCollision d.name := by
  cases u with
  | publish d =>
    rw [apply]
    constructor
    · intro h
      split at h
      · rename_i hused
        exact ⟨d, ⟨rfl, (shown_contains d.name).trans hused⟩, (Except.error.inj h).symm⟩
      · cases h
    · rintro ⟨d, ⟨⟨⟩, hused⟩, rfl⟩
      rw [shown_contains] at hused
      rw [if_pos hused]
  | withdraw name => simp [apply]
  | markConsistent => simp [apply]
  | markInconsistent => simp [apply]

theorem shown_of_apply (hdocument : ∀ d s, document (compile d s).1 = d) {u : Update}
    (h : p.apply compile u = .ok q) :
    q.shown document = u.change (p.shown document) ∧ q.consistent = u.mark?.getD p.consistent := by
  cases u with
  | publish d =>
    rw [apply] at h
    split at h
    · cases h
    · cases h
      refine ⟨funext fun name => ?_, rfl⟩
      simp only [shown, Update.change, SortedTable.get?_insert]
      split
      · rw [Option.map_some, hdocument]
      · rfl
  | withdraw withdrawn =>
    cases h
    refine ⟨funext fun name => ?_, rfl⟩
    simp only [shown, Update.change, SortedTable.get?_erase]
    split <;> rfl
  | markConsistent =>
    cases h
    exact ⟨rfl, rfl⟩
  | markInconsistent =>
    cases h
    exact ⟨rfl, rfl⟩

/-- The documents and the mark after all updates of a batch. -/
theorem shown_of_applyAll (hdocument : ∀ d s, document (compile d s).1 = d) {updates : List Update}
    (h : p.applyAll compile updates = .ok q) :
    q.shown document = Update.changed (p.shown document) updates ∧
      q.consistent = (Update.lastMark? updates).getD p.consistent := by
  refine applyAll_induction [] (motive := fun done r =>
    r.shown document = Update.changed (p.shown document) done ∧
      r.consistent = (Update.lastMark? done).getD p.consistent) ?_ ⟨rfl, rfl⟩ h
  rintro done r u r' - ⟨hshown, hmark⟩ hr
  obtain ⟨hshown', hmark'⟩ := shown_of_apply hdocument hr
  constructor
  · rw [hshown', hshown, Update.changed, Update.changed, List.foldl_append]
    rfl
  · rw [hmark', hmark, Update.lastMark?_append]
    cases u <;> rfl

/-- A batch is refused exactly for the first document that collides. -/
theorem applyAll_eq_error_iff (hdocument : ∀ d s, document (compile d s).1 = d)
    {updates : List Update} {e : Error} : p.applyAll compile updates = .error e ↔
      ∃ d, Update.CollidesFirst (p.shown document) updates d ∧ e = .nameCollision d.name := by
  induction updates generalizing p with
  | nil =>
    refine ⟨nofun, ?_⟩
    rintro ⟨d, ⟨before, after, hnil, -⟩, -⟩
    simp at hnil
  | cons u rest ih =>
    simp only [Update.collidesFirst_cons]
    rw [applyAll]
    cases hu : p.apply compile u with
    | ok q =>
      have hnone (d : Document) : ¬ (u = .publish d ∧ (p.shown document d.name).isSome) := by
        intro hd
        rw [apply_eq_error_iff.2 ⟨d, hd, rfl⟩] at hu
        cases hu
      rw [← (shown_of_apply hdocument hu).1]
      simp only [hnone, false_or, not_false_eq_true, implies_true, true_and]
      exact ih
    | error e' =>
      obtain ⟨d, ⟨rfl, hused⟩, rfl⟩ := apply_eq_error_iff.1 hu
      constructor
      · intro h
        exact ⟨d, .inl ⟨rfl, hused⟩, (Except.error.inj h).symm⟩
      · rintro ⟨d', ⟨⟨⟩, -⟩ | ⟨hnone, -⟩, rfl⟩
        · rfl
        · exact absurd ⟨rfl, hused⟩ (hnone d)

theorem shown_compact (p : Publications PredicateTable IndexedDocument) :
    (CanonicalIndex.compact p).shown (·.document) = p.shown (·.document) ∧
      (CanonicalIndex.compact p).consistent = p.consistent := by
  rw [CanonicalIndex.compact]
  split
  · refine ⟨funext fun name => ?_, rfl⟩
    simp only [shown, SortedTable.get?_map, Option.map_map]
    rfl
  · exact ⟨rfl, rfl⟩

end Publications

/-! ## Indexes -/

namespace DocumentIndex

variable {index next : DocumentIndex} {batch : UpdateBatch}

theorem document?_canonical (index : CanonicalIndex) :
    (canonical index).document? = index.publications.shown (·.document) := by
  funext name
  exact SortedTable.get?_map _ _ _

theorem document?_naive (index : NaiveIndex) :
    (naive index).document? = index.publications.shown id := by
  funext name
  exact (congrFun Option.map_id (index.documents.get? name)).symm

/-- Documents are what they are compiled to. -/
theorem document_uncompiled (d : Document) (s : Unit) :
    id ((fun (d : Document) (_ : Unit) => (d, ())) d s).1 = d := rfl

/-- A batch is refused exactly for the first document that collides. -/
theorem apply_eq_error_iff {e : Error} : index.apply batch = .error e ↔
    ∃ d, Update.CollidesFirst index.document? batch.updates d ∧ e = .nameCollision d.name := by
  cases index with
  | canonical index =>
    rw [document?_canonical, ← Publications.applyAll_eq_error_iff
      (CanonicalIndex.compile_document index.maxClauses), apply, CanonicalIndex.apply]
    split <;> rename_i hall <;> rw [hall] <;> simp [Except.map]
  | naive index =>
    rw [document?_naive, ← Publications.applyAll_eq_error_iff document_uncompiled, apply,
      NaiveIndex.apply]
    split <;> rename_i hall <;> rw [hall] <;> simp [Except.map]

/-- What an accepted batch makes of an index. -/
theorem apply_ok (h : index.apply batch = .ok next) :
    next.version = index.version + 1 ∧
      next.document? = Update.changed index.document? batch.updates ∧
      next.isConsistent = (Update.lastMark? batch.updates).getD index.isConsistent := by
  cases index with
  | canonical index =>
    rw [apply, CanonicalIndex.apply] at h
    split at h
    · cases h
    · rename_i p hp
      cases h
      obtain ⟨hshown, hmark⟩ := Publications.shown_of_applyAll
        (CanonicalIndex.compile_document index.maxClauses) hp
      obtain ⟨hcompact, hcompactMark⟩ := Publications.shown_compact p
      rw [document?_canonical, document?_canonical]
      exact ⟨rfl, hcompact.trans hshown, hcompactMark.trans hmark⟩
  | naive index =>
    rw [apply, NaiveIndex.apply] at h
    split at h
    · rename_i p hp
      cases h
      obtain ⟨hshown, hmark⟩ := Publications.shown_of_applyAll document_uncompiled hp
      rw [document?_naive, document?_naive]
      exact ⟨rfl, hshown, hmark⟩
    · cases h

/-- While the source of the documents is not in a consistent state, nothing is found. -/
theorem retrieve_of_inconsistent (h : index.isConsistent = false) (evaluate : PredicateEvaluator) :
    index.retrieve evaluate = .inconsistent := by
  cases index with
  | canonical index =>
    have hc : index.consistent = false := h
    rw [retrieve, CanonicalIndex.retrieve, hc]
    rfl
  | naive index =>
    have hc : index.consistent = false := h
    rw [retrieve, NaiveIndex.retrieve, hc]
    rfl

end DocumentIndex

/-! ## Retrieval points -/

namespace RetrievalPoint

/-- The point after batches that were offered one after the other, and the answers: nothing, or the
error for which the batch was refused. A refused batch leaves the point as it is. -/
def offer (p : RetrievalPoint) : List UpdateBatch → RetrievalPoint × List (Option Error)
  | [] => (p, [])
  | batch :: rest =>
    match p.apply batch with
    | .ok next =>
      let (last, answers) := next.offer rest
      (last, none :: answers)
    | .error e =>
      let (last, answers) := p.offer rest
      (last, some e :: answers)

/-- The batches that were answered with nothing. -/
def accepted (batches : List UpdateBatch) (answers : List (Option Error)) : List UpdateBatch :=
  ((batches.zip answers).filter fun b => b.2.isNone).map (·.1)

/-- What a point has to show after it accepted some batches, and how it answers the next one. -/
structure Serves (p : RetrievalPoint) (accepted : List UpdateBatch) : Prop where
  version : p.index.version = accepted.length
  documents : p.index.document? = Update.changed (fun _ => none) (UpdateBatch.history accepted)
  consistent : p.index.isConsistent = (Update.lastMark? (UpdateBatch.history accepted)).getD true
  refuses : ∀ batch : UpdateBatch, (∃ e, p.apply batch = .error e) ↔
    ∃ d, Update.Collides p.index.document? batch.updates d
  refusal : ∀ (batch : UpdateBatch) e, p.apply batch = .error e →
    (∃ d, Update.CollidesFirst p.index.document? batch.updates d ∧ e = .nameCollision d.name) ∧
      p.offer [batch] = (p, [some e])
  acceptance : ∀ (batch : UpdateBatch) next, p.apply batch = .ok next →
    next.index.version = p.index.version + 1 ∧
      next.index.document? = Update.changed p.index.document? batch.updates ∧
      next.index.isConsistent = (Update.lastMark? batch.updates).getD p.index.isConsistent
  silent : p.index.isConsistent = false → ∀ evaluate,
    (p.index.retrieve evaluate).matching = [] ∧ (p.index.retrieve evaluate).consistent = false ∧
      (p.index.retrieve evaluate).errorOccurred = false

variable {p q next : RetrievalPoint} {batch : UpdateBatch} {done : List UpdateBatch}

theorem apply_eq_error_iff {e : Error} : p.apply batch = .error e ↔
    ∃ d, Update.CollidesFirst p.index.document? batch.updates d ∧ e = .nameCollision d.name := by
  rw [← DocumentIndex.apply_eq_error_iff, apply]
  cases p.index.apply batch <;> simp

theorem index_of_apply (h : p.apply batch = .ok next) : p.index.apply batch = .ok next.index := by
  rw [apply] at h
  split at h
  · rename_i hindex
    cases h
    exact hindex
  · cases h

/-- How a point answers follows from what it shows. -/
theorem Serves.intro (hversion : p.index.version = done.length)
    (hdocuments : p.index.document? =
      Update.changed (fun _ => none) (UpdateBatch.history done))
    (hconsistent : p.index.isConsistent =
      (Update.lastMark? (UpdateBatch.history done)).getD true) : p.Serves done where
  version := hversion
  documents := hdocuments
  consistent := hconsistent
  refuses batch := by
    rw [Update.exists_collidesFirst]
    constructor
    · rintro ⟨e, he⟩
      obtain ⟨d, hd, -⟩ := apply_eq_error_iff.1 he
      exact ⟨d, hd⟩
    · rintro ⟨d, hd⟩
      exact ⟨_, apply_eq_error_iff.2 ⟨d, hd, rfl⟩⟩
  refusal batch e he := by
    refine ⟨apply_eq_error_iff.1 he, ?_⟩
    rw [offer, he]
    rfl
  acceptance batch next h := DocumentIndex.apply_ok (index_of_apply h)
  silent h evaluate := by
    rw [DocumentIndex.retrieve_of_inconsistent h evaluate]
    exact ⟨rfl, rfl, rfl⟩

theorem Serves.apply (h : p.Serves done) (he : p.apply batch = .ok next) :
    next.Serves (done ++ [batch]) := by
  obtain ⟨hversion, hdocuments, hconsistent⟩ := DocumentIndex.apply_ok (index_of_apply he)
  have hhistory : UpdateBatch.history (done ++ [batch]) =
      UpdateBatch.history done ++ batch.updates := by
    rw [UpdateBatch.history, List.flatMap_append, List.flatMap_singleton]
    rfl
  refine .intro ?_ ?_ ?_
  · rw [hversion, h.version, List.length_append, List.length_singleton]
  · rw [hdocuments, h.documents, hhistory, Update.changed, Update.changed, Update.changed,
      List.foldl_append]
  · rw [hconsistent, h.consistent, hhistory, Update.lastMark?_append, Option.getD_or]

theorem Serves.offer (h : p.Serves done) (batches : List UpdateBatch) :
    (p.offer batches).1.Serves (done ++ accepted batches (p.offer batches).2) := by
  induction batches generalizing p done with
  | nil =>
    rw [accepted, List.zip_nil_left, List.filter_nil, List.map_nil, List.append_nil]
    exact h
  | cons batch rest ih =>
    rw [RetrievalPoint.offer]
    cases he : p.apply batch with
    | ok next =>
      have hrest := ih (h.apply he)
      rw [List.append_assoc] at hrest
      exact hrest
    | error e => exact ih h

/-- Points that show the same documents answer alike, and show the same documents afterwards. -/
theorem offer_congr (h : p.index.document? = q.index.document?) (batches : List UpdateBatch) :
    (p.offer batches).2 = (q.offer batches).2 ∧
      (p.offer batches).1.index.document? = (q.offer batches).1.index.document? := by
  induction batches generalizing p q with
  | nil => exact ⟨rfl, h⟩
  | cons batch rest ih =>
    have herror (e : Error) : p.apply batch = .error e ↔ q.apply batch = .error e := by
      rw [apply_eq_error_iff, apply_eq_error_iff, h]
    rw [offer, offer]
    cases hp : p.apply batch with
    | ok next =>
      cases hq : q.apply batch with
      | ok next' =>
        have hnext : next.index.document? = next'.index.document? := by
          rw [(DocumentIndex.apply_ok (index_of_apply hp)).2.1,
            (DocumentIndex.apply_ok (index_of_apply hq)).2.1, h]
        obtain ⟨hanswers, hshown⟩ := ih hnext
        exact ⟨congrArg (none :: ·) hanswers, hshown⟩
      | error e =>
        rw [(herror e).2 hq] at hp
        cases hp
    | error e =>
      rw [(herror e).1 hp]
      obtain ⟨hanswers, hshown⟩ := ih h
      exact ⟨congrArg (some e :: ·) hanswers, hshown⟩

/-- Points without documents over the two kinds of index give the same answers to all batches and
then have the same documents. What each of them shows is what the accepted updates say, and a batch
is refused exactly for the first document that is published under a name in use. -/
theorem offer_protocol (maxClauses : Nat) (strategy : OrderStrategy) (context : Context)
    (batches : List UpdateBatch) :
    ∃ p q answers,
      RetrievalPoint.offer { index := .canonical (.empty maxClauses strategy), context } batches =
        (p, answers) ∧
      RetrievalPoint.offer { index := .naive .empty, context } batches = (q, answers) ∧
      p.Serves (accepted batches answers) ∧ q.Serves (accepted batches answers) ∧
      p.index.documents = q.index.documents := by
  let start : RetrievalPoint := { index := .canonical (.empty maxClauses strategy), context }
  let start' : RetrievalPoint := { index := .naive .empty, context }
  have hserves : start.Serves [] := .intro rfl rfl rfl
  have hserves' : start'.Serves [] := .intro rfl rfl rfl
  obtain ⟨hanswers, hshown⟩ := offer_congr (p := start) (q := start') rfl batches
  refine ⟨(start.offer batches).1, (start'.offer batches).1, (start.offer batches).2, rfl,
    ?_, hserves.offer batches, ?_, SortedTable.ext_get? (congrFun hshown)⟩
  · rw [hanswers]
  · rw [hanswers]
    exact hserves'.offer batches

end RetrievalPoint
end PolicyDecision
