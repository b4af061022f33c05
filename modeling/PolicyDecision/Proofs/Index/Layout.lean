import PolicyDecision.Index.Tables
import PolicyDecision.Proofs.Formula.Reduced

/-!
# PolicyDecision.Proofs.Index.Layout

What the tables of documents contain.

The tables are built document by document and clause by clause, with a number for each clause and a
list of clauses for each position that grow on the way. Here each table is described at once, by the
clauses and the documents it is about.

* `MatchingTables.layout`: the tables by what they contain.
* `Collected.Holds`: what is collected from some occurrences of clauses; `holds_collect`.
* `countReferences_eq`: how many clauses reference each predicate.
* `Compiled.Lists`: what the first clauses make of the tables; `lists_compile`.
* `MatchingTables.build_eq_layout`: the tables that are built for reduced formulas.
-/

namespace PolicyDecision
namespace MatchingTables

/-- The clauses of all formulas, each with the position of its document. -/
def occurrences (formulas : List Formula) : List (Clause × Nat) :=
  formulas.zipIdx.flatMap fun f => (satisfiable f.1).map fun c => (c, f.2)

/-- Every clause once, in the order of its first occurrence, with the documents that have it. -/
def distinctClauses (occurrences : List (Clause × Nat)) : List (Clause × List Nat) :=
  (occurrences.map (·.1)).eraseDups.map fun c =>
    (c, (occurrences.filter fun o => o.1 == c).map (·.2))

/-- How many clauses reference each predicate. -/
def referenceCounts (clauses : List Clause) : ReferenceCounts :=
  (OrderedSet.ofList (clauses.flatMap Clause.predicates)).items.map fun id =>
    (id, clauses.countP fun c => c.predicates.contains id)

def compileClause (order : List PredicateId) (c : Clause) (documents : List Nat) :
    CompiledClause :=
  let positions (literals : List Literal) : Bitmask :=
    (literals.filterMap fun l => l.predicate?.bind (order.idxOf? ·)).foldl Bitmask.set
      (.zeros order.length)
  let mask := positions c.literals.items
  { mask
    polarity := positions (c.literals.items.filter fun l => !l.isNegated)
    literalCount := mask.count
    documents }

/-- The clauses that reference a position. -/
def referencing (clauses : List CompiledClause) (position : Nat) : List Nat :=
  (clauses.zipIdx.filter fun c => c.1.mask.test position).map (·.2)

def layout (documents : List (String × Formula)) (strategy : OrderStrategy) : MatchingTables :=
  let formulas := documents.map (·.2)
  let distinct := distinctClauses (occurrences formulas)
  let order := checkedOrder strategy (referenceCounts (distinct.map (·.1)))
  let clauses := distinct.map fun c => compileClause order c.1 c.2
  { documentNames := documents.map (·.1)
    order
    clauses
    references := (List.range order.length).map (referencing clauses)
    clausesPerDocument := formulas.map fun f => (satisfiable f).length }

/-! ## The clauses of the documents -/

namespace Collected

variable {seen : List (Clause × Nat)} {s : Collected} {c : Clause}

/-- The clauses of some occurrences, numbered by their positions. -/
structure Holds (seen : List (Clause × Nat)) (s : Collected) : Prop where
  clauses : s.clauses = distinctClauses seen
  numbers : ∀ c id, s.numbers.lookup c = some id ↔ (seen.map (·.1)).eraseDups[id]? = some c

theorem eraseDups_concat {l : List Clause} :
    (l ++ [c]).eraseDups = if c ∈ l then l.eraseDups else l.eraseDups ++ [c] := by
  rw [List.eraseDups_append]
  by_cases h : c ∈ l <;> simp [List.removeAll, h, List.eraseDups_cons]

/-- Before the document is added to its list, a clause has a number, and a list that is empty where the
clause is new. -/
theorem Holds.number (h : s.Holds seen) (c : Clause) :
    (s.number c).2.clauses = (seen.map (·.1) ++ [c]).eraseDups.map
        (fun a => (a, (seen.filter fun o => o.1 == a).map (·.2))) ∧
      (∀ a id, (s.number c).2.numbers.lookup a = some id ↔
        (seen.map (·.1) ++ [c]).eraseDups[id]? = some a) ∧
      (seen.map (·.1) ++ [c]).eraseDups[(s.number c).1]? = some c := by
  rw [Collected.number]
  cases hlookup : s.numbers.lookup c with
  | some id =>
    have hid := (h.numbers c id).1 hlookup
    have hmem : c ∈ seen.map (·.1) := List.mem_eraseDups.1 (List.mem_of_getElem? hid)
    rw [eraseDups_concat, if_pos hmem]
    exact ⟨h.clauses, h.numbers, hid⟩
  | none =>
    have hnew : c ∉ seen.map (·.1) := by
      intro hmem
      obtain ⟨id, hid⟩ := List.getElem?_of_mem (List.mem_eraseDups.2 hmem)
      rw [(h.numbers c id).2 hid] at hlookup
      cases hlookup
    have hlength : s.clauses.length = (seen.map (·.1)).eraseDups.length := by
      rw [h.clauses, distinctClauses, List.length_map]
    rw [eraseDups_concat, if_neg hnew]
    refine ⟨?_, fun a id => ?_, ?_⟩
    · have hnone : (seen.filter fun o => o.1 == c) = [] := by
        refine List.filter_eq_nil_iff.2 fun o ho he => hnew ?_
        exact List.mem_map.2 ⟨o, ho, beq_iff_eq.1 he⟩
      simp [h.clauses, distinctClauses, hnone]
    · rw [List.lookup_cons, List.getElem?_append, hlength]
      by_cases ha : a = c
      · subst ha
        have hout (hlt : id < (seen.map (·.1)).eraseDups.length) :
            (seen.map (·.1)).eraseDups[id]? ≠ some a := fun hid =>
          hnew (List.mem_eraseDups.1 (List.mem_of_getElem? hid))
        grind
      · have hbeq : (a == c) = false := by simpa using ha
        rw [hbeq]
        refine (h.numbers a id).trans ?_
        grind
    · simp [hlength]

/-- One more occurrence. -/
theorem Holds.addClause (h : s.Holds seen) (c : Clause) (position : Nat) :
    (s.addClause position c).Holds (seen ++ [(c, position)]) := by
  obtain ⟨hclauses, hnumbers, hid⟩ := h.number c
  have hkeys : (seen ++ [(c, position)]).map (·.1) = seen.map (·.1) ++ [c] := List.map_append
  refine ⟨?_, by rwa [hkeys]⟩
  have hnodup := nodup_eraseDups (seen.map (·.1) ++ [c])
  rw [distinctClauses, hkeys]
  refine List.ext_getElem? fun i => ?_
  show ((s.number c).2.clauses.modify (s.number c).1 fun e => (e.1, e.2 ++ [position]))[i]? = _
  rw [List.getElem?_modify, hclauses, List.getElem?_map, List.getElem?_map]
  cases hi : (seen.map (·.1) ++ [c]).eraseDups[i]? with
  | none => rfl
  | some a =>
    -- only the entry at the number of the clause changes
    have hiff : (s.number c).1 = i ↔ c = a := by
      constructor
      · rintro rfl
        exact Option.some.inj (hid.symm.trans hi)
      · rintro rfl
        exact (List.getElem?_inj (List.getElem?_eq_some_iff.1 hid).1 hnodup).1 (hid.trans hi.symm)
    by_cases hc : c = a
    · subst hc
      simp [hiff.2 rfl]
    · simp [hc, mt hiff.1 hc]

@[simp] theorem documentNames_addClause (s : Collected) (c : Clause) (position : Nat) :
    (s.addClause position c).documentNames = s.documentNames := by
  rw [Collected.addClause, Collected.number]
  cases s.numbers.lookup c <;> rfl

@[simp] theorem clausesPerDocument_addClause (s : Collected) (c : Clause) (position : Nat) :
    (s.addClause position c).clausesPerDocument = s.clausesPerDocument := by
  rw [Collected.addClause, Collected.number]
  cases s.numbers.lookup c <;> rfl

/-- The clauses of one document, counted on the way. -/
theorem Holds.addClauses (h : s.Holds seen) (position n : Nat) (found : List Clause) :
    let r := found.foldl (fun r c => (r.1.addClause position c, r.2 + 1)) (s, n)
    r.1.Holds (seen ++ found.map fun c => (c, position)) ∧
      r.1.documentNames = s.documentNames ∧ r.1.clausesPerDocument = s.clausesPerDocument ∧
      r.2 = n + found.length := by
  induction found generalizing s seen n with
  | nil => exact ⟨by simpa using h, rfl, rfl, rfl⟩
  | cons c rest ih =>
    obtain ⟨hholds, hnames, hcounts, hn⟩ := ih (h.addClause c position) (n + 1)
    refine ⟨by simpa using hholds, by simpa using hnames, by simpa using hcounts, hn.trans ?_⟩
    rw [List.length_cons, Nat.add_right_comm, Nat.add_assoc]

/-- The documents one after the other. -/
theorem Holds.addDocuments (h : s.Holds seen) (documents : List ((String × Formula) × Nat)) :
    (documents.foldl addDocument s).Holds
        (seen ++ documents.flatMap fun d => (satisfiable d.1.2).map fun c => (c, d.2)) ∧
      (documents.foldl addDocument s).documentNames =
        s.documentNames ++ documents.map (·.1.1) ∧
      (documents.foldl addDocument s).clausesPerDocument =
        s.clausesPerDocument ++ documents.map fun d => (satisfiable d.1.2).length := by
  induction documents generalizing s seen with
  | nil => exact ⟨by simpa using h, by simp, by simp⟩
  | cons d rest ih =>
    obtain ⟨hholds, hnames, hcounts, hn⟩ := h.addClauses d.2 0 (satisfiable d.1.2)
    have hnext : (s.addDocument d).Holds
        (seen ++ (satisfiable d.1.2).map fun c => (c, d.2)) := ⟨hholds.clauses, hholds.numbers⟩
    obtain ⟨hholds', hnames', hcounts'⟩ := ih hnext
    refine ⟨by simpa using hholds', ?_, ?_⟩
    · rw [List.foldl_cons, hnames', addDocument]
      simp [hnames]
    · rw [List.foldl_cons, hcounts', addDocument]
      simp [hcounts, hn]

theorem holds_collect (documents : List (String × Formula)) :
    (documents.zipIdx.foldl addDocument {}).Holds (occurrences (documents.map (·.2))) ∧
      (documents.zipIdx.foldl addDocument {}).documentNames = documents.map (·.1) ∧
      (documents.zipIdx.foldl addDocument {}).clausesPerDocument =
        (documents.map (·.2)).map fun f => (satisfiable f).length := by
  have hstart : Holds [] {} := ⟨rfl, fun _ _ => by simp⟩
  obtain ⟨hholds, hnames, hcounts⟩ := hstart.addDocuments documents.zipIdx
  have hmap {β : Type} (f : String × Formula → β) :
      (documents.zipIdx.map fun d => f d.1) = documents.map f := by
    rw [← List.zipIdx_map_fst 0 documents, List.map_map]
    simp
  refine ⟨?_, ?_, ?_⟩
  · rw [occurrences, List.zipIdx_map, List.flatMap_map]
    exact hholds
  · exact hnames.trans (hmap (·.1))
  · rw [hcounts, List.map_map]
    exact hmap fun d => (satisfiable d.2).length

end Collected

/-! ## References -/

/-- Counting keeps the predicates in their order; one that is new was not counted before. -/
theorem countReference_map {a : PredicateId} {l : List PredicateId} {count : PredicateId → Nat}
    (hl : l.Pairwise fun i j => compare i j = .lt) (ha : a ∉ l → count a = 0) :
    countReference a (l.map fun i => (i, count i)) =
      (OrderedSet.place a l).map fun i => (i, if i = a then count i + 1 else count i) := by
  have hother {rest : List PredicateId} (hne : a ∉ rest) :
      (rest.map fun i => (i, count i)) =
        rest.map fun i => (i, if i = a then count i + 1 else count i) :=
    List.map_congr_left fun i hi => by rw [if_neg fun he : i = a => hne (he ▸ hi)]
  induction l with
  | nil => simp [countReference, OrderedSet.place, ha List.not_mem_nil]
  | cons b rest ih =>
    obtain ⟨hb, hrest⟩ := List.pairwise_cons.1 hl
    rw [List.map_cons, countReference, OrderedSet.place]
    cases hcompare : compare a b with
    | lt =>
      have hne : a ∉ b :: rest := by
        rintro hmem
        rcases List.mem_cons.1 hmem with rfl | hmem
        · simp at hcompare
        · have hba := Nat.compare_eq_lt.1 (hb a hmem)
          exact Nat.lt_asymm hba (Nat.compare_eq_lt.1 hcompare)
      dsimp only
      rw [List.map_cons, if_pos rfl, ha hne, ← hother hne, List.map_cons]
    | eq =>
      obtain rfl := Nat.compare_eq_eq.1 hcompare
      have hne : a ∉ rest := fun hmem => by
        have := hb a hmem
        simp at this
      dsimp only
      rw [List.map_cons, if_pos rfl, hother hne]
    | gt =>
      have hne : b ≠ a := by
        rintro rfl
        simp at hcompare
      dsimp only
      rw [ih hrest fun hmem => ha fun h => (List.mem_cons.1 h).elim (hne ∘ Eq.symm) hmem,
        List.map_cons, if_neg hne]

theorem foldl_countReference (seen ids : List PredicateId) :
    ids.foldl (fun counts id => countReference id counts)
        ((OrderedSet.ofList seen).items.map fun i => (i, seen.count i)) =
      (OrderedSet.ofList (seen ++ ids)).items.map fun i => (i, (seen ++ ids).count i) := by
  induction ids generalizing seen with
  | nil => simp
  | cons a rest ih =>
    have hnone (h : a ∉ (OrderedSet.ofList seen).items) : seen.count a = 0 :=
      List.count_eq_zero.2 fun hmem => h (OrderedSet.mem_ofList.2 hmem)
    have hinsert : OrderedSet.place a (OrderedSet.ofList seen).items =
        (OrderedSet.ofList (seen ++ [a])).items := by
      rw [OrderedSet.ofList, OrderedSet.ofList, List.foldl_append]
      rfl
    rw [List.foldl_cons, countReference_map (OrderedSet.ascending _) hnone, hinsert,
      List.append_cons seen a rest, ← ih (seen ++ [a])]
    congr 2
    funext i
    rw [List.count_append, List.count_singleton]
    by_cases hi : i = a
    · simp [hi]
    · simp [hi, Ne.symm hi]

theorem predicates_nodup {c : Clause} (h : c.IsReduced) : c.predicates.Nodup := by
  refine List.pairwise_filterMap.2 (List.Pairwise.imp_of_mem ?_ (OrderedSet.nodup c.literals))
  rintro l l' hl hl' hne id hid id' hid' rfl
  refine hne ?_
  cases l with
  | constant b => cases hid
  | predicate i negated =>
    cases l' with
    | constant b => cases hid'
    | predicate i' negated' =>
      obtain rfl : i = id := Option.some.inj hid
      obtain rfl : i' = i := Option.some.inj hid'
      cases negated with
      | false =>
        cases negated' with
        | false => rfl
        | true => exact absurd hl (h.no_complement i' hl')
      | true =>
        cases negated' with
        | false => exact absurd hl' (h.no_complement i' hl)
        | true => rfl

theorem count_predicates {clauses : List Clause} (h : ∀ c ∈ clauses, c.IsReduced) (id : PredicateId) :
    (clauses.flatMap Clause.predicates).count id =
      clauses.countP fun c => c.predicates.contains id := by
  induction clauses with
  | nil => rfl
  | cons c rest ih =>
    rw [List.flatMap_cons, List.count_append, List.countP_cons,
      ih fun a ha => h a (List.mem_cons_of_mem _ ha), (predicates_nodup (h c (.head _))).count,
      Nat.add_comm]
    simp

theorem countReferences_eq {clauses : List Clause} (h : ∀ c ∈ clauses, c.IsReduced) :
    countReferences clauses = referenceCounts clauses := by
  have hfold := foldl_countReference [] (clauses.flatMap Clause.predicates)
  rw [countReferences, ← List.foldl_flatMap]
  refine hfold.trans (List.map_congr_left fun id _ => ?_)
  rw [List.nil_append, count_predicates h]

/-! ## Bits -/

theorem lookup_zipIdx_eq (order : List PredicateId) (k : Nat) (id : PredicateId) :
    (order.zipIdx k).lookup id = (order.idxOf? id).map (· + k) := by
  induction order generalizing k with
  | nil => rfl
  | cons a rest ih =>
    rw [List.zipIdx_cons, List.lookup_cons, List.idxOf?_cons, ih]
    by_cases h : a = id
    · simp [h]
    · have hne : (id == a) = false := by simpa using Ne.symm h
      simp [h, hne, Option.map_map, Function.comp_def, Nat.add_comm, Nat.add_left_comm]

/-- The positions of some literals. -/
def positionsIn (order : List PredicateId) (literals : List Literal) : List Nat :=
  literals.filterMap fun l => l.predicate?.bind (order.idxOf? ·)

/-- The three parts of an encoding do not depend on each other. -/
theorem foldl_addLiteral (order : List PredicateId) (number : Nat) (e : Encoding)
    (literals : List Literal) :
    literals.foldl (Encoding.addLiteral order.zipIdx number) e =
      { mask := (positionsIn order literals).foldl Bitmask.set e.mask
        polarity := (positionsIn order (literals.filter fun l => !l.isNegated)).foldl Bitmask.set
          e.polarity
        references := (positionsIn order literals).foldl
          (fun references p => references.modify p (· ++ [number])) e.references } := by
  induction literals generalizing e with
  | nil => rfl
  | cons l rest ih =>
    have hlookup : (l.predicate?.bind fun id => order.zipIdx.lookup id) =
        l.predicate?.bind (order.idxOf? ·) := by
      simp only [lookup_zipIdx_eq, Nat.add_zero, Option.map_id']
    rw [List.foldl_cons, ih, Encoding.addLiteral, hlookup]
    simp only [positionsIn, List.filterMap_cons, List.filter_cons]
    cases hposition : l.predicate?.bind (order.idxOf? ·) with
    | none => cases hnegated : l.isNegated <;> simp [hposition]
    | some p => cases hnegated : l.isNegated <;> simp [hposition]

theorem positionsIn_nodup {order : List PredicateId} {c : Clause} (h : c.IsReduced) :
    (positionsIn order c.literals.items).Nodup := by
  have hpredicates : positionsIn order c.literals.items =
      c.predicates.filterMap (order.idxOf? ·) := by
    rw [Clause.predicates, List.filterMap_filterMap]
    rfl
  rw [hpredicates]
  refine List.pairwise_filterMap.2 ((predicates_nodup h).imp ?_)
  rintro i j hij p hp q hq rfl
  obtain ⟨_, rfl, -⟩ := List.idxOf?_eq_some_iff.1 hp
  obtain ⟨_, he, -⟩ := List.idxOf?_eq_some_iff.1 hq
  exact hij he

/-- Every position gets the number once. -/
theorem getElem?_foldl_modify {positions : List Nat} (h : positions.Nodup)
    (references : List (List Nat)) (number q : Nat) :
    (positions.foldl (fun references p => references.modify p (· ++ [number])) references)[q]? =
      references[q]?.map fun numbers => if q ∈ positions then numbers ++ [number] else numbers := by
  induction positions generalizing references with
  | nil => simp
  | cons p rest ih =>
    obtain ⟨hp, hrest⟩ := List.nodup_cons.1 h
    rw [List.foldl_cons, ih hrest, List.getElem?_modify]
    cases references[q]? with
    | none => rfl
    | some numbers =>
      by_cases hq : p = q
      · subst hq
        simp [hp]
      · simp [hq, Ne.symm hq]

theorem referencing_concat (clauses : List CompiledClause) (c : CompiledClause) (p : Nat) :
    referencing (clauses ++ [c]) p =
      if c.mask.test p then referencing clauses p ++ [clauses.length] else referencing clauses p := by
  rw [referencing, List.zipIdx_append, List.filter_append, List.map_append]
  by_cases h : c.mask.test p <;> simp [referencing, h]

namespace Compiled

/-- The clauses so far in bits, listed at their positions. -/
structure Lists (order : List PredicateId) (done : List (Clause × List Nat)) (s : Compiled) : Prop where
  clauses : s.clauses = done.map fun c => compileClause order c.1 c.2
  references : s.references = (List.range order.length).map (referencing s.clauses)

variable {order : List PredicateId} {done : List (Clause × List Nat)} {s : Compiled}

theorem Lists.addClause (h : s.Lists order done) {c : Clause} (hc : c.IsReduced)
    (documents : List Nat) :
    (s.addClause order ((c, documents), done.length)).Lists order (done ++ [(c, documents)]) := by
  have hclauses : (s.addClause order ((c, documents), done.length)).clauses =
      s.clauses ++ [compileClause order c documents] := by
    rw [Compiled.addClause, foldl_addLiteral]
    rfl
  refine ⟨by rw [hclauses, h.clauses, List.map_append]; rfl, ?_⟩
  have hreferences : (s.addClause order ((c, documents), done.length)).references =
      (positionsIn order c.literals.items).foldl
        (fun references p => references.modify p (· ++ [done.length])) s.references := by
    rw [Compiled.addClause, foldl_addLiteral]
  rw [hreferences, hclauses]
  refine List.ext_getElem? fun q => ?_
  rw [getElem?_foldl_modify (positionsIn_nodup hc), h.references, List.getElem?_map,
    List.getElem?_map]
  by_cases hq : q < order.length
  · have hmask : (compileClause order c documents).mask.test q = true ↔
        q ∈ positionsIn order c.literals.items := by
      show ((positionsIn order c.literals.items).foldl Bitmask.set (.zeros order.length)).test q =
        true ↔ _
      rw [Bitmask.test_foldl_set, Bitmask.test_zeros, Bool.false_or, decide_eq_true_eq]
      exact and_iff_left hq
    have hlength : s.clauses.length = done.length := by rw [h.clauses, List.length_map]
    rw [List.getElem?_range hq, Option.map_some, Option.map_some, Option.map_some, referencing_concat,
      hlength]
    simp only [hmask]
  · rw [List.getElem?_eq_none (by simpa using hq)]
    rfl

theorem lists_compile (order : List PredicateId) {clauses : List (Clause × List Nat)}
    (h : ∀ c ∈ clauses, c.1.IsReduced) :
    (clauses.zipIdx.foldl (Compiled.addClause order)
      { references := List.replicate order.length [] }).Lists order clauses := by
  have hrest (done rest : List (Clause × List Nat)) (s : Compiled) (hs : s.Lists order done)
      (hreduced : ∀ c ∈ rest, c.1.IsReduced) :
      ((rest.zipIdx done.length).foldl (Compiled.addClause order) s).Lists order (done ++ rest) := by
    induction rest generalizing done s with
    | nil => simpa using hs
    | cons c rest ih =>
      have hnext := ih (done ++ [c]) _ (hs.addClause (hreduced c (.head _)) c.2)
        fun a ha => hreduced a (.tail _ ha)
      simpa using hnext
  refine hrest [] clauses _ ⟨rfl, ?_⟩ h
  refine List.ext_getElem? fun q => ?_
  by_cases hq : q < order.length
  · simp [hq, referencing]
  · simp [hq]

end Compiled

/-! ## The tables -/

/-- The tables that are built contain what the layout says. -/
theorem build_eq_layout {documents : List (String × Formula)} (h : ∀ d ∈ documents, d.2.IsReduced)
    (strategy : OrderStrategy) : build documents strategy = layout documents strategy := by
  obtain ⟨hholds, hnames, hcounts⟩ := Collected.holds_collect documents
  have hreduced : ∀ c ∈ distinctClauses (occurrences (documents.map (·.2))), c.1.IsReduced := by
    intro c hc
    obtain ⟨a, ha, rfl⟩ := List.mem_map.1 hc
    obtain ⟨o, ho, rfl⟩ := List.mem_map.1 (List.mem_eraseDups.1 ha)
    obtain ⟨f, hf, hmem⟩ := List.mem_flatMap.1 ho
    obtain ⟨a, hsat, rfl⟩ := List.mem_map.1 hmem
    obtain ⟨d, hd, he⟩ := List.mem_map.1 (List.fst_mem_of_mem_zipIdx hf)
    have hreduced : f.1.IsReduced := he ▸ h d hd
    exact hreduced a (List.mem_of_mem_filter hsat)
  rw [build, layout, hholds.clauses, hnames, hcounts, countReferences_eq]
  · obtain ⟨hclauses, hreferences⟩ := Compiled.lists_compile
      (checkedOrder strategy (referenceCounts
        ((distinctClauses (occurrences (documents.map (·.2)))).map (·.1)))) hreduced
    simp only [hreferences, hclauses]
  · intro c hc
    obtain ⟨a, ha, rfl⟩ := List.mem_map.1 hc
    exact hreduced a ha

end MatchingTables
end PolicyDecision
