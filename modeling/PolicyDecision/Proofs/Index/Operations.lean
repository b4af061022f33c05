import PolicyDecision.Proofs.Index.Interning
import PolicyDecision.Proofs.Index.Reachable

/-!
# PolicyDecision.Proofs.Index.Operations

What updates do to the predicates of an index.

Compiling a target interns its leaves one after the other, up to a part that is refused. After the updates
of a batch the table is compacted if it has predicates that no formula references.

* `Expression.operations`, `Document.operations`, `Publications.operations`, `CanonicalIndex.operations`:
  what is done to the table.
* `Expression.operations_eq`: a target that is compiled has all of its leaves interned.
* `CanonicalIndex.run_operations`: these operations lead to the table of the index.
* `CanonicalIndex.exists_indexes`: the list with the numbers and the numbers of the signatures, under the same
  operations, are in step with it.
-/

namespace PolicyDecision

/-- A second sequence of operations goes on where the first one ends. -/
theorem PredicateTable.run_append {t u : PredicateTable} {first : List TableOperation}
    (h : t.run first = .ok u) (second : List TableOperation) :
    t.run (first ++ second) = u.run second := by
  induction first generalizing t with
  | nil =>
    obtain rfl := Except.ok.inj h
    rfl
  | cons operation rest ih =>
    rw [run] at h
    split at h
    · rename_i v hperform
      rw [List.cons_append, run, hperform]
      exact ih h
    · cases h

/-! ## Targets -/

/-- What interning a predicate does; a full table refuses it. -/
def PredicateTable.operations (t : PredicateTable) (e : Expression) : List TableOperation :=
  match t.intern e with
  | .ok _ => [.intern e]
  | .error _ => []

/-- What two parts do. The second one is not compiled if the first one is refused. -/
def Compilation.andThenOperations (first : Compilation) (operations : List TableOperation)
    (second : PredicateTable → List TableOperation) : List TableOperation :=
  match first with
  | (.error _, _) => operations
  | (.ok _, table) => operations ++ second table

/-- What compiling an expression does. -/
def Expression.operations (imports : Imports) (limit : Nat) :
    Expression → PredicateTable → List TableOperation
  | .basic (.value (.bool _)) [] none, _ => []
  | .basic (.group inner) [] none, table => inner.operations imports limit table
  | .unary .not operand, table => operand.operations imports limit table
  | .binary op left right, table =>
    match op with
    | .and | .eagerAnd | .or | .eagerOr =>
      (left.compile imports limit table).andThenOperations (left.operations imports limit table)
        (right.operations imports limit)
    | op => table.operations (Expression.resolveImports imports (.binary op left right))
  | e, table => table.operations (e.resolveImports imports)

/-- What compiling a document does. -/
def Document.operations (limit : Nat) (d : Document) (t : PredicateTable) : List TableOperation :=
  match d.target with
  | none => []
  | some e => if e.containsFinder then [] else e.operations d.imports limit t

section

variable {t : PredicateTable} {c : Compilation} {operations : List TableOperation}
  {second : PredicateTable → Compilation} {operations' : PredicateTable → List TableOperation}
  {join : Formula → Formula → Except Error Formula} {f : Formula}

theorem PredicateTable.run_operations (imports : Imports) (e : Expression) (t : PredicateTable) :
    t.run (t.operations (e.resolveImports imports)) = .ok (compilePredicate imports e t).2 := by
  rw [operations, compilePredicate]
  cases h : t.intern (e.resolveImports imports) with
  | ok result => simp only [run, perform, h, Except.map]
  | error _ => rfl

theorem Compilation.run_andThenOperations (hfirst : t.run operations = .ok c.2)
    (hsecond : ∀ u, PredicateTable.run u (operations' u) = .ok (second u).2) :
    t.run (c.andThenOperations operations operations') = .ok (c.andThen second join).2 := by
  obtain ⟨e | f, u⟩ := c
  · exact hfirst
  · rw [andThen_ok, andThenOperations, PredicateTable.run_append hfirst]
    exact hsecond u

/-- The operations of an expression lead to the table that compiling it leaves. -/
theorem Expression.run_operations (imports : Imports) (limit : Nat) (e : Expression)
    (t : PredicateTable) : t.run (e.operations imports limit t) = .ok (e.compile imports limit t).2 := by
  induction e using Expression.leaves.induct generalizing t with
  | case1 b =>
    rw [operations, compile]
    rfl
  | case2 inner ih =>
    rw [operations, compile]
    exact ih t
  | case3 operand ih =>
    rw [operations, compile]
    exact ih t
  | case4 left right ihl ihr | case5 left right ihl ihr | case6 left right ihl ihr
  | case7 left right ihl ihr =>
    rw [operations, compile]
    exact Compilation.run_andThenOperations (ihl t) ihr
  | case8 op left right hand heagerAnd hor heagerOr =>
    rw [operations, compile]
    · exact PredicateTable.run_operations imports _ t
    all_goals assumption
  | case9 e hbool hgroup hnot hbinary =>
    rw [operations, compile]
    · exact PredicateTable.run_operations imports _ t
    all_goals assumption

theorem PredicateTable.operations_eq_of_ok {imports : Imports} {e : Expression}
    (h : (compilePredicate imports e t).1 = .ok f) :
    t.operations (e.resolveImports imports) = [.intern (e.resolveImports imports)] := by
  rw [operations]
  rw [compilePredicate] at h
  split at h
  · rename_i hintern
    rw [hintern]
  · cases h

theorem Compilation.andThenOperations_eq_of_ok {leaves leaves' : List Expression}
    (h : (c.andThen second join).1 = .ok f)
    (hfirst : ∀ f, c.1 = .ok f → operations = leaves.map .intern)
    (hsecond : ∀ u f, (second u).1 = .ok f → operations' u = leaves'.map .intern) :
    c.andThenOperations operations operations' = (leaves ++ leaves').map .intern := by
  obtain ⟨g, g', hg, hg', -⟩ := andThen_eq_ok h
  obtain ⟨r, u⟩ := c
  cases hg
  rw [andThenOperations, hfirst g rfl, hsecond u g' hg', List.map_append]

/-- An expression that is compiled has all of its leaves interned, in their order. -/
theorem Expression.operations_eq (imports : Imports) (limit : Nat) (e : Expression)
    (t : PredicateTable) (h : (e.compile imports limit t).1 = .ok f) :
    e.operations imports limit t = (e.leaves imports).map .intern := by
  induction e using Expression.leaves.induct generalizing t f with
  | case1 b =>
    rw [operations, leaves]
    rfl
  | case2 inner ih =>
    rw [compile] at h
    rw [operations, leaves]
    exact ih t h
  | case3 operand ih =>
    rw [compile] at h
    obtain ⟨g, hg, -⟩ := Compilation.map_eq_ok h
    rw [operations, leaves]
    exact ih t hg
  | case4 left right ihl ihr | case5 left right ihl ihr | case6 left right ihl ihr
  | case7 left right ihl ihr =>
    rw [compile] at h
    rw [operations, leaves]
    exact Compilation.andThenOperations_eq_of_ok h (fun _ => ihl t) fun u _ => ihr u
  | case8 op left right hand heagerAnd hor heagerOr =>
    rw [compile] at h
    · rw [operations, leaves]
      · exact PredicateTable.operations_eq_of_ok h
      all_goals assumption
    all_goals assumption
  | case9 e hbool hgroup hnot hbinary =>
    rw [compile] at h
    · rw [operations, leaves]
      · exact PredicateTable.operations_eq_of_ok h
      all_goals assumption
    all_goals assumption

theorem Document.run_operations (limit : Nat) (d : Document) (t : PredicateTable) :
    t.run (d.operations limit t) = .ok (CanonicalIndex.compile limit d t).2 := by
  unfold CanonicalIndex.compile compileTarget operations
  cases d.target with
  | none => rfl
  | some e =>
    dsimp only
    split
    · rfl
    · rw [e.run_operations]
      rcases e.compile d.imports limit t with ⟨_ | _, _⟩ <;> rfl

end

/-! ## Updates -/

namespace Publications

variable {maxClauses : Nat} {updates : List Update} {u : Update}
  {p q : Publications PredicateTable IndexedDocument}

/-- What an update does: publishing compiles the document. -/
def operationsOf (limit : Nat) (p : Publications PredicateTable IndexedDocument) :
    Update → List TableOperation
  | .publish d => d.operations limit p.state
  | _ => []

/-- The predicates that no formula references are dropped if there are some. -/
def compaction (p : Publications PredicateTable IndexedDocument) : List TableOperation :=
  let live := CanonicalIndex.referenced p.documents
  if live.size < p.state.size then [.compact live] else []

/-- What the updates of a batch do, and the compaction after them. -/
def operations (limit : Nat) (p : Publications PredicateTable IndexedDocument) :
    List Update → List TableOperation
  | [] => p.compaction
  | u :: rest =>
    match p.apply (CanonicalIndex.compile limit) u with
    | .ok q => p.operationsOf limit u ++ q.operations limit rest
    | .error _ => p.operationsOf limit u

theorem run_operationsOf (h : p.apply (CanonicalIndex.compile maxClauses) u = .ok q) :
    p.state.run (p.operationsOf maxClauses u) = .ok q.state := by
  rcases apply_cases h with ⟨d, rfl, -, rfl⟩ | ⟨name, rfl, rfl⟩ | ⟨rfl | rfl, -, hstate⟩
  · exact d.run_operations maxClauses p.state
  · rfl
  · rw [hstate]
    rfl
  · rw [hstate]
    rfl

theorem run_compaction (p : Publications PredicateTable IndexedDocument) :
    p.state.run p.compaction = .ok (CanonicalIndex.compact p).state := by
  unfold compaction CanonicalIndex.compact
  dsimp only
  split <;> rfl

theorem run_operations (h : p.applyAll (CanonicalIndex.compile maxClauses) updates = .ok q) :
    p.state.run (p.operations maxClauses updates) = .ok (CanonicalIndex.compact q).state := by
  induction updates generalizing p with
  | nil =>
    obtain rfl := Except.ok.inj h
    exact p.run_compaction
  | cons u rest ih =>
    rw [applyAll] at h
    split at h
    · rename_i r hr
      rw [operations, hr]
      exact (PredicateTable.run_append (run_operationsOf hr) _).trans (ih h)
    · cases h

end Publications

/-! ## Indexes -/

namespace CanonicalIndex

variable {maxClauses : Nat} {strategy : OrderStrategy} {index next : CanonicalIndex}
  {batches : List UpdateBatch}

/-- What batches do. -/
def operations (index : CanonicalIndex) : List UpdateBatch → List TableOperation
  | [] => []
  | batch :: rest =>
    match index.apply batch with
    | .ok next =>
      index.publications.operations index.maxClauses batch.updates ++ next.operations rest
    | .error _ => index.publications.operations index.maxClauses batch.updates

/-- The operations lead to the table of the index after the batches. -/
theorem run_operations (h : index.applyEach batches = .ok next) :
    index.predicates.run (index.operations batches) = .ok next.predicates := by
  induction batches generalizing index with
  | nil =>
    obtain rfl := Except.ok.inj h
    rfl
  | cons batch rest ih =>
    rw [applyEach] at h
    split at h
    · rename_i index' hindex
      obtain ⟨p, hp, hpublications, -⟩ := apply_spec hindex
      have hbatch : index.predicates.run
          (index.publications.operations index.maxClauses batch.updates) = .ok index'.predicates := by
        have hstate : index'.predicates = (compact p).state := congrArg (·.state) hpublications
        rw [hstate]
        exact Publications.run_operations hp
      rw [operations, hindex]
      exact (PredicateTable.run_append hbatch _).trans (ih h)
    · cases h

/-- The same operations lead two structures, the predicates with their numbers and the number of each
signature, to one that is in step with the table. -/
theorem exists_indexes (h : (empty maxClauses strategy).applyEach batches = .ok index) :
    ∃ s, SignatureIndex.empty.run ((empty maxClauses strategy).operations batches) = .ok s ∧
      s.Indexes index.predicates := by
  have hrun := run_operations h
  rcases SignatureIndex.indexes_empty.run ((empty maxClauses strategy).operations batches) with
    ⟨s, t, hs, ht, hindexes⟩ | ⟨-, hfull⟩
  · obtain rfl := Except.ok.inj (hrun.symm.trans ht)
    exact ⟨s, hs, hindexes⟩
  · exact nomatch hrun.symm.trans hfull

end CanonicalIndex
end PolicyDecision
