import PolicyDecision.Proofs.Index.Retrieval

/-!
# PolicyDecision.Proofs.Index.CheckedRun

Matching with every index and every counter checked.

The tables and the bookkeeping are read and written by position, and the counters go down by one. Here a
position out of range, or a counter that would go below zero, leaves no result. On tables that fit
together this never happens.

* `MatchState.settle?`, `MatchRun.run?`, `CanonicalIndex.retrieve?`: the checked operations.
* `MatchState.settle?_eq`: settling a clause is safe while no status is live without open literals.
* `MatchingTables.run?_eq`, `CanonicalIndex.IsCoherent.retrieve?_eq`: a run and a retrieval are safe.
-/

namespace PolicyDecision

/-- One less, if that is possible. -/
def decrement? (n : Nat) : Option Nat := if n = 0 then none else some (n - 1)

/-! ## Checked operations -/

namespace MatchState

def determine? (s : MatchState) (document : Nat) (outcome : DocumentState) : Option MatchState := do
  if (← s.documents[document]?) = .undetermined then
    let undetermined ← decrement? s.undetermined
    return { s with documents := s.documents.set document outcome, undetermined }
  else return s

def satisfy? (s : MatchState) (index : Nat) (c : CompiledClause) : Option MatchState :=
  c.documents.foldlM (fun s d => s.determine? d .matched) { s with live := s.live.clear index }

def release? (s : MatchState) (document : Nat) : Option MatchState := do
  let left ← decrement? (← s.liveClauses[document]?)
  let s := { s with liveClauses := s.liveClauses.set document left }
  if left = 0 then s.determine? document .eliminated else return s

def eliminate? (s : MatchState) (index : Nat) (c : CompiledClause) : Option MatchState :=
  c.documents.foldlM release? { s with live := s.live.clear index }

def start? (t : MatchingTables) : Option MatchState := do
  let s : MatchState :=
    { documents := List.replicate t.documentNames.length .undetermined
      liveClauses := t.clausesPerDocument
      live := .full t.clauses.length
      unsatisfied := t.clauses.map (·.literalCount)
      undetermined := t.documentNames.length }
  let s ← t.clausesPerDocument.zipIdx.foldlM
    (fun s d => if d.1 = 0 then s.determine? d.2 .eliminated else some s) s
  t.clauses.zipIdx.foldlM (fun s c => if c.1.literalCount = 0 then s.satisfy? c.2 c.1 else some s) s

def isRelevant? (s : MatchState) (t : MatchingTables) (position : Nat) : Option Bool := do
  (← t.references[position]?).anyM fun index => do
    if s.live.test index then
      (← t.clauses[index]?).documents.anyM fun d => do return (← s.documents[d]?) == .undetermined
    else return false

def settle? (t : MatchingTables) (position : Nat) (outcome : Option Bool) (s : MatchState)
    (index : Nat) : Option MatchState := do
  if !s.live.test index then return s
  let c ← t.clauses[index]?
  if outcome = some (c.polarity.test position) then
    let left ← decrement? (← s.unsatisfied[index]?)
    let s := { s with unsatisfied := s.unsatisfied.set index left }
    if left = 0 then s.satisfy? index c else return s
  else s.eliminate? index c

end MatchState

namespace MatchRun

def visit? (t : MatchingTables) (predicates : PredicateTable) (evaluate : PredicateEvaluator)
    (r : MatchRun) (position : Nat) (id : PredicateId) : Option MatchRun := do
  if !(← r.state.isRelevant? t position) then return r
  match predicates.get? id with
  | none => return r
  | some predicate =>
    let outcome := evaluate predicate
    let state ← (← t.references[position]?).foldlM
      (MatchState.settle? t position outcome.toOption) r.state
    return { state, probes := r.probes ++ [⟨predicate, outcome⟩] }

def run? (t : MatchingTables) (predicates : PredicateTable) (evaluate : PredicateEvaluator) :
    List (PredicateId × Nat) → MatchRun → Option MatchRun
  | [], r => some r
  | (id, position) :: rest, r =>
    if r.state.undetermined = 0 then some r
    else do run? t predicates evaluate rest (← r.visit? t predicates evaluate position id)

end MatchRun

namespace MatchingTables

def run? (t : MatchingTables) (predicates : PredicateTable) (evaluate : PredicateEvaluator) :
    Option MatchRun := do
  MatchRun.run? t predicates evaluate t.order.zipIdx { state := ← MatchState.start? t }

def matched? (t : MatchingTables) (s : MatchState) : Option (List String) :=
  (s.documents.zipIdx.filter fun d => d.1 == .matched).mapM fun d => t.documentNames[d.2]?

end MatchingTables

def CanonicalIndex.retrieve? (index : CanonicalIndex) (evaluate : PredicateEvaluator) :
    Option Retrieval := do
  if !index.consistent then return .inconsistent
  let r ← index.tables.run? index.predicates evaluate
  let found := (← index.tables.matched? r.state).filterMap index.documents.get?
  let erroneous := found.filter fun d => d.compileError.isSome
  return {
    matching := found.map (·.document)
    errorOccurred := r.failed || !erroneous.isEmpty
    consistent := true
    erroneous := erroneous.map (·.document.name)
    probes := r.probes }

/-! ## Loops -/

/-- A loop whose steps all succeed does what the plain loop does. -/
theorem foldlM_eq_some {σ α : Type} {P : σ → Prop} {step : σ → α → σ} {step? : σ → α → Option σ}
    {l : List α} {s : σ} (hs : P s)
    (hstep : ∀ s, ∀ a ∈ l, P s → step? s a = some (step s a) ∧ P (step s a)) :
    l.foldlM step? s = some (l.foldl step s) := by
  induction l generalizing s with
  | nil => rfl
  | cons a rest ih =>
    obtain ⟨hok, hnext⟩ := hstep s a List.mem_cons_self hs
    rw [List.foldlM_cons, hok, List.foldl_cons]
    exact ih hnext fun s b hb => hstep s b (List.mem_cons_of_mem a hb)

theorem anyM_eq_some {α : Type} {p : α → Bool} {p? : α → Option Bool} {l : List α}
    (h : ∀ a ∈ l, p? a = some (p a)) : l.anyM p? = some (l.any p) := by
  induction l with
  | nil => rfl
  | cons a rest ih =>
    rw [List.anyM, h a List.mem_cons_self, List.any_cons]
    cases p a with
    | true => rfl
    | false => exact ih fun b hb => h b (List.mem_cons_of_mem a hb)

theorem set_eq_modify {α : Type} {l : List α} {i : Nat} {a : α} (h : l[i]? = some a) (f : α → α) :
    l.set i (f a) = l.modify i f := by
  rw [List.modify_eq_set_getElem?, h]
  rfl

theorem decrement?_of_pos {n : Nat} (h : n ≠ 0) : decrement? n = some (n - 1) := if_neg h

/-! ## Determining documents -/

namespace MatchState

variable {s : MatchState} {o : DocumentState} {d index : Nat} {c : CompiledClause}
  {documents : List Nat}

/-- An undetermined document is counted, so the count can go down. -/
theorem determine?_eq (h : s.IsCounted) (hd : d < s.documents.length) :
    s.determine? d o = some (s.determine d o) := by
  rw [determine?, determine, List.getElem?_eq_getElem hd]
  by_cases hund : s.documents[d] = .undetermined
  · have hpos : s.undetermined ≠ 0 := by
      rw [h]
      exact (List.count_pos_iff.2 (hund ▸ List.getElem_mem hd)).ne'
    simp [hund, decrement?_of_pos hpos]
  · simp [hund]

theorem matchAll?_eq (h : s.IsCounted) (hd : ∀ d ∈ documents, d < s.documents.length) :
    documents.foldlM (fun s d => s.determine? d .matched) s =
      some (documents.foldl (fun s d => s.determine d .matched) s) := by
  have hs : s.IsCounted ∧ s.documents.length = s.documents.length := ⟨h, rfl⟩
  refine foldlM_eq_some (P := fun s' => s'.IsCounted ∧ s'.documents.length = s.documents.length) hs
    fun s' d hmem ⟨hcount, hlength⟩ => ?_
  refine ⟨determine?_eq hcount (hlength ▸ hd d hmem), hcount.determine (by decide), ?_⟩
  rw [determine_documents_length, hlength]

theorem satisfy?_eq (h : s.IsCounted) (hd : ∀ d ∈ c.documents, d < s.documents.length) :
    s.satisfy? index c = some (s.satisfy index c) :=
  matchAll?_eq (s := { s with live := s.live.clear index }) h hd

theorem release?_eq {n : Nat} (h : s.IsCounted) (hd : d < s.documents.length)
    (hlive : s.liveClauses[d]? = some n) (hn : n ≠ 0) : s.release? d = some (s.release d) := by
  have hlt := (List.getElem?_eq_some_iff.1 hlive).1
  have hset : s.liveClauses.set d (n - 1) = s.liveClauses.modify d (· - 1) :=
    set_eq_modify hlive (· - 1)
  have hget : (s.liveClauses.modify d (· - 1))[d]? = some (n - 1) := by simp [hlive]
  rw [release?, release, hlive]
  simp only [Option.bind_eq_bind, Option.bind_some, decrement?_of_pos hn, hset, hget,
    Option.some.injEq]
  split
  · exact determine?_eq (s := { s with liveClauses := s.liveClauses.modify d (· - 1) }) h hd
  · rfl

/-- Distinct documents with a clause left can all lose one. -/
theorem releaseAll?_eq (h : s.IsCounted) (hnodup : documents.Nodup)
    (hd : ∀ d ∈ documents, d < s.documents.length)
    (hlive : ∀ d ∈ documents, ∃ n, s.liveClauses[d]? = some n ∧ n ≠ 0) :
    documents.foldlM release? s = some (documents.foldl release s) := by
  induction documents generalizing s with
  | nil => rfl
  | cons d rest ih =>
    obtain ⟨hnot, hrest⟩ := List.nodup_cons.1 hnodup
    obtain ⟨n, hn, hpos⟩ := hlive d List.mem_cons_self
    rw [List.foldlM_cons, release?_eq h (hd d List.mem_cons_self) hn hpos, List.foldl_cons]
    refine ih h.release hrest (fun e he => ?_) fun e he => ?_
    · rw [release_documents_length]
      exact hd e (List.mem_cons_of_mem d he)
    · obtain ⟨m, hm, hpos⟩ := hlive e (List.mem_cons_of_mem d he)
      have hne : e ≠ d := fun h => hnot (h ▸ he)
      rw [release_liveClauses, hm]
      exact ⟨m, by simp [hne], hpos⟩

end MatchState

/-! ## Settling clauses -/

theorem MatchingTables.statuses_ne (t : MatchingTables) (out : Nat → Option Bool) (seen : Finset Nat)
    (j : Nat) : t.statuses out seen j ≠ .live 0 := by
  rw [statuses]
  split
  · exact fun h => (CompiledClause.status_eq_live.1 h).2.2 rfl
  · simp

theorem ClauseStatus.advance_ne {x : ClauseStatus} {holds : Bool} (h : x ≠ .live 0) :
    x.advance holds ≠ .live 0 := by
  cases x with
  | live n =>
    rw [advance, ofOpen]
    split
    · split
      · simp
      · rename_i hn
        exact fun he => hn (ClauseStatus.live.inj he)
    · simp
  | satisfied | eliminated => simp [advance]

namespace Represents

open MatchingTables

variable {t : MatchingTables} {st : Statuses} {s : MatchState} {j n d : Nat} {c : CompiledClause}

theorem lt_documents_length (h : Represents t st s) (ht : t.DocumentsListed)
    (hc : t.clauses[j]? = some c) (hd : d ∈ c.documents) : d < s.documents.length := by
  rw [h.documents_length]
  exact ht.named c (List.mem_of_getElem? hc) d hd

theorem satisfy?_eq (h : Represents t st s) (ht : t.DocumentsListed) (hc : t.clauses[j]? = some c) :
    s.satisfy? j c = some (s.satisfy j c) :=
  MatchState.satisfy?_eq h.counted fun _ hd => h.lt_documents_length ht hc hd

/-- Each document of a live clause has a clause left, that one at least. -/
theorem eliminate?_eq (h : Represents t st s) (ht : t.DocumentsListed)
    (hc : t.clauses[j]? = some c) (hlive : st j = .live n) :
    s.eliminate? j c = some (s.eliminate j c) := by
  have hmem := List.mem_of_getElem? hc
  refine MatchState.releaseAll?_eq (s := { s with live := s.live.clear j }) h.counted
    (ht.nodup c hmem) (fun d hd => h.lt_documents_length ht hc hd) fun d hd => ?_
  refine ⟨_, h.liveClauses d (ht.named c hmem d hd), Finset.card_ne_zero_of_mem (mem_remaining.2
    ⟨(has_iff hc).2 hd, ?_⟩)⟩
  rw [hlive]
  simp

/-- A live clause has open literals, so that their number can go down. -/
theorem settle?_eq (h : Represents t st s) (ht : t.DocumentsListed) (hc : t.clauses[j]? = some c)
    (hopen : st j ≠ .live 0) (position : Nat) (outcome : Option Bool) :
    s.settle? t position outcome j = some (s.settle t position outcome j) := by
  have hlt := (List.getElem?_eq_some_iff.1 hc).1
  cases hlive : s.live.test j with
  | false => simp [MatchState.settle?, MatchState.settle, hlive, hc]
  | true =>
    obtain ⟨-, n, hst⟩ := (h.live j).1 hlive
    have hn : n ≠ 0 := fun hz => hopen (hz ▸ hst)
    by_cases ho : outcome = some (c.polarity.test position)
    · have hget := h.unsatisfied j n hlt hst
      have hset : s.unsatisfied.set j (n - 1) = s.unsatisfied.modify j (· - 1) :=
        set_eq_modify hget (· - 1)
      have hleft : (s.unsatisfied.modify j (· - 1))[j]? = some (n - 1) := by simp [hget]
      have hsatisfy := (h.decrement hst).satisfy?_eq ht hc
      simp only [MatchState.settle?, MatchState.settle, hlive, hc, ho, hget, hset, hleft,
        decrement?_of_pos hn, Bool.not_true, Bool.false_eq_true, if_false, if_true,
        Option.bind_eq_bind, Option.bind_some, Option.some.injEq]
      split
      · exact hsatisfy
      · rfl
    · simp [MatchState.settle?, MatchState.settle, hlive, hc, ho, h.eliminate?_eq ht hc hst]

theorem settleAll?_eq (h : Represents t st s) (ht : t.DocumentsListed)
    (hopen : ∀ j, st j ≠ .live 0) (position : Nat) (outcome : Option Bool) {indices : List Nat}
    (hindices : ∀ j ∈ indices, j < t.clauses.length) :
    indices.foldlM (MatchState.settle? t position outcome) s =
      some (indices.foldl (MatchState.settle t position outcome) s) := by
  have hs : ∃ st, Represents t st s ∧ ∀ j, st j ≠ .live 0 := ⟨st, h, hopen⟩
  refine foldlM_eq_some (P := fun s => ∃ st, Represents t st s ∧ ∀ j, st j ≠ .live 0) hs
    fun s j hj ⟨st, h, hopen⟩ => ?_
  have hc := List.getElem?_eq_getElem (hindices j hj)
  refine ⟨h.settle?_eq ht hc (hopen j) position outcome, _, h.settle ht hc position outcome,
    fun i => ?_⟩
  by_cases hi : i = j
  · rw [hi, Statuses.put_self]
    exact ClauseStatus.advance_ne (hopen j)
  · rw [Statuses.put_ne _ _ hi]
    exact hopen i

/-- Every reference leads to a clause, and every document of a clause to its state. -/
theorem isRelevant?_eq (h : Represents t st s) (ht : t.Consistent) {p : Nat}
    (hp : p < t.order.length) : s.isRelevant? t p = some (s.isRelevant t p) := by
  obtain ⟨indices, hrefs, -, hmem⟩ := ht.references p hp
  rw [MatchState.isRelevant?, MatchState.isRelevant, hrefs]
  refine anyM_eq_some fun j hj => ?_
  obtain ⟨c, hc, -⟩ := (hmem j).1 hj
  cases hlive : s.live.test j with
  | false => rfl
  | true =>
    rw [hc]
    refine anyM_eq_some fun d hd => ?_
    rw [List.getElem?_eq_getElem (h.lt_documents_length ht.toDocumentsListed hc hd)]
    rfl

end Represents

namespace MatchState

open MatchingTables

variable {t : MatchingTables} {s : MatchState}

/-- The documents are counted, and their states are all there. -/
def IsFitted (t : MatchingTables) (s : MatchState) : Prop :=
  s.IsCounted ∧ s.documents.length = t.documentNames.length

theorem IsFitted.determine (h : s.IsFitted t) {d : Nat} {o : DocumentState} (ho : o ≠ .undetermined) :
    (s.determine d o).IsFitted t :=
  ⟨h.1.determine ho, determine_documents_length.trans h.2⟩

theorem IsFitted.satisfy (h : s.IsFitted t) {index : Nat} {c : CompiledClause} :
    (s.satisfy index c).IsFitted t := by
  have hcounted : IsCounted { s with live := s.live.clear index } := h.1
  obtain ⟨-, -, -, hlength, hcount, -⟩ := matchAll_spec c.documents hcounted
  exact ⟨hcount, hlength.trans h.2⟩

theorem eliminateEmpty?_eq (ht : t.Consistent) (h : s.IsFitted t) :
    t.clausesPerDocument.zipIdx.foldlM
        (fun s d => if d.1 = 0 then s.determine? d.2 .eliminated else some s) s =
      some (t.clausesPerDocument.zipIdx.foldl
        (fun s d => if d.1 = 0 then s.determine d.2 .eliminated else s) s) := by
  refine foldlM_eq_some (P := IsFitted t) h fun s d hd h => ?_
  have hlt : d.2 < s.documents.length := by
    rw [h.2, ← ht.clausesPerDocument.1]
    exact List.snd_lt_of_mem_zipIdx hd
  split
  · exact ⟨determine?_eq h.1 hlt, h.determine (by decide)⟩
  · exact ⟨rfl, h⟩

theorem satisfyEmpty?_eq (ht : t.Consistent) (h : s.IsFitted t) :
    t.clauses.zipIdx.foldlM
        (fun s c => if c.1.literalCount = 0 then s.satisfy? c.2 c.1 else some s) s =
      some (t.clauses.zipIdx.foldl
        (fun s c => if c.1.literalCount = 0 then s.satisfy c.2 c.1 else s) s) := by
  refine foldlM_eq_some (P := IsFitted t) h fun s c hc h => ?_
  have hmem : c.1 ∈ t.clauses := List.fst_mem_of_mem_zipIdx hc
  split
  · exact ⟨satisfy?_eq h.1 fun d hd => h.2 ▸ ht.named c.1 hmem d hd, h.satisfy⟩
  · exact ⟨rfl, h⟩

theorem start?_eq (ht : t.Consistent) : start? t = some (start t) := by
  have hblank : (blank t).IsFitted t := by
    simp [IsFitted, IsCounted, blank]
  have heliminated : IsFitted t (t.clausesPerDocument.zipIdx.foldl
      (fun s d => if d.1 = 0 then s.determine d.2 .eliminated else s) (blank t)) := by
    have h := Represents.eliminateEmpty ht
    exact ⟨h.counted, h.documents_length⟩
  have hfirst := eliminateEmpty?_eq ht hblank
  have hsecond := satisfyEmpty?_eq ht heliminated
  exact (congrArg (Option.bind · _) hfirst).trans hsecond

end MatchState

/-! ## The run -/

namespace MatchRun

open MatchingTables

variable {t : MatchingTables} {predicates : PredicateTable} {evaluate : PredicateEvaluator}
  {out : Nat → Option Bool} {k : Nat} {seen : Finset Nat} {r : MatchRun} {id : PredicateId}

theorem RunsTo.visit?_eq (h : RunsTo t predicates evaluate out k seen r) (ht : t.Consistent)
    (hk : k < t.order.length) :
    r.visit? t predicates evaluate k id = some (r.visit t predicates evaluate k id) := by
  obtain ⟨indices, hrefs, -, hmem⟩ := ht.references k hk
  have hrelevant := h.represents.isRelevant?_eq ht hk
  rw [MatchRun.visit?, MatchRun.visit, hrelevant]
  cases r.state.isRelevant t k with
  | false => rfl
  | true =>
    cases hid : predicates.get? id with
    | none => rfl
    | some e =>
      have hindices (j : Nat) (hj : j ∈ indices) : j < t.clauses.length := by
        obtain ⟨c, hc, -⟩ := (hmem j).1 hj
        exact (List.getElem?_eq_some_iff.1 hc).1
      have hsettle := h.represents.settleAll?_eq ht.toDocumentsListed (statuses_ne t out seen) k
        (evaluate e).toOption hindices
      simp [hrefs, hsettle]

/-- The induction is on the turns left. -/
theorem RunsTo.run?_eq (ht : t.Consistent)
    (hout : ∀ p id, t.order[p]? = some id →
      ∃ e, predicates.get? id = some e ∧ out p = (evaluate e).toOption)
    {rest : List PredicateId} (hrest : t.order.drop k = rest)
    (h : RunsTo t predicates evaluate out k seen r) :
    MatchRun.run? t predicates evaluate (rest.zipIdx k) r =
      some (MatchRun.run t predicates evaluate (rest.zipIdx k) r) := by
  induction rest generalizing k seen r with
  | nil => rfl
  | cons id rest ih =>
    have hid : t.order[k]? = some id := by
      rw [← List.head?_drop, hrest]
      rfl
    have htail : t.order.drop (k + 1) = rest := by
      rw [← List.tail_drop, hrest]
      rfl
    obtain ⟨e, he, ho⟩ := hout k id hid
    obtain ⟨seen', hnext⟩ := h.visit ht hid he ho
    rw [List.zipIdx_cons, MatchRun.run?, MatchRun.run]
    split
    · rfl
    · rw [h.visit?_eq ht (List.getElem?_eq_some_iff.1 hid).1]
      exact ih htail hnext

end MatchRun

namespace MatchingTables

variable {t : MatchingTables} {predicates : PredicateTable} {evaluate : PredicateEvaluator}
  {out : Nat → Option Bool}

/-- No counter goes below zero and no position out of range, from the start to the end of a run. -/
theorem run?_eq (ht : t.Consistent)
    (hout : ∀ p id, t.order[p]? = some id →
      ∃ e, predicates.get? id = some e ∧ out p = (evaluate e).toOption) :
    t.run? predicates evaluate = some (t.run predicates evaluate) := by
  have hstart : MatchRun.RunsTo t predicates evaluate out 0 ∅ { state := .start t } :=
    ⟨.start ht out, by simp, by simp, by simp⟩
  rw [run?, MatchState.start?_eq ht]
  exact hstart.run?_eq ht hout List.drop_zero

/-- The names of the matched documents are there, from the `k`-th one on. -/
theorem mapM_names {all names : List String} {documents : List DocumentState} {k : Nat}
    (hnames : all.drop k = names) (hlength : documents.length = names.length) :
    (((documents.zipIdx k).filter fun d => d.1 == .matched).mapM fun d => all[d.2]?) =
      some (((names.zip documents).filter fun d => d.2 == .matched).map (·.1)) := by
  induction documents generalizing k names with
  | nil => rw [List.zip_nil_right]; rfl
  | cons state documents ih =>
    cases names with
    | nil => cases hlength
    | cons name names =>
      have hname : all[k]? = some name := by
        rw [← List.head?_drop, hnames]
        rfl
      have htail : all.drop (k + 1) = names := by
        rw [← List.tail_drop, hnames]
        rfl
      have hrest := ih htail (Nat.succ.inj hlength)
      rw [List.zipIdx_cons, List.zip_cons_cons, List.filter_cons, List.filter_cons]
      split
      · simp [hname, hrest]
      · exact hrest

theorem matched?_eq {s : MatchState} (h : s.documents.length = t.documentNames.length) :
    t.matched? s = some (t.matched s) := mapM_names List.drop_zero h

end MatchingTables

/-! ## Retrievals -/

namespace CanonicalIndex

variable {known : Expression → Prop} {index : CanonicalIndex}

theorem IsCoherent.run?_eq (h : index.IsCoherent known) (evaluate : PredicateEvaluator) :
    index.tables.run? index.predicates evaluate =
      some (index.tables.run index.predicates evaluate) := by
  rw [h.tables]
  exact MatchingTables.run?_eq MatchingTables.consistent_layout h.closed.turns

theorem IsCoherent.retrieve?_eq (h : index.IsCoherent known) (evaluate : PredicateEvaluator) :
    index.retrieve? evaluate = some (index.retrieve evaluate) := by
  obtain ⟨k, seen, hrun, -⟩ := MatchingTables.exists_runsTo_layout index.strategy evaluate h.closed
  rw [← h.tables] at hrun
  have hmatched := MatchingTables.matched?_eq hrun.represents.documents_length
  rw [retrieve?, retrieve]
  cases index.consistent with
  | false => rfl
  | true =>
    simp [h.run?_eq evaluate, hmatched, matchedDocuments]

end CanonicalIndex
end PolicyDecision
