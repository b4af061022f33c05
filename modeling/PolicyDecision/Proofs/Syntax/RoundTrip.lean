import PolicyDecision.Index.Update
import PolicyDecision.Proofs.Syntax.Signature

/-!
# PolicyDecision.Proofs.Syntax.RoundTrip

Documents and updates read back from their JSON form.

* `Expression.readExpression_toJson`: expressions, one lemma per form of the syntax.
* `SortedTable.ofList_entries`: a table of imports is rebuilt from its bindings.
* `Document.ofJson?_toJson`, `Update.ofJson?_toJson`: documents and updates.
* `publications_survive_json`: so are batches, although fields that are not there are left out.
-/

namespace PolicyDecision

/-! ## Expressions -/

mutual
theorem Expression.readExpression_toJson : ∀ e : Expression, readExpression e.toJson = some e
  | .basic head steps tail => by
    have hhead := head.readHead_toJson
    have hsteps := readStepItems_stepsJson steps
    cases tail with
    | none =>
      simp [Expression.toJson, Json.form, tailFields, readExpression, readBasicFields, readSteps,
        hhead, hsteps, BasicFields.finish]
    | some tail =>
      have htail := tail.readTail_toJson
      simp [Expression.toJson, Json.form, tailFields, readExpression, readBasicFields, readSteps,
        hhead, hsteps, htail, BasicFields.finish]
  | .unary op operand => by
    have hoperand := operand.readExpression_toJson
    simp [Expression.toJson, Json.form, readExpression, readOperatorFields, hoperand,
      OperatorFields.unary?]
  | .binary op left right => by
    have hleft := left.readExpression_toJson
    have hright := right.readExpression_toJson
    simp [Expression.toJson, Json.form, readExpression, readOperatorFields, hleft, hright,
      OperatorFields.binary?]

theorem Head.readHead_toJson : ∀ head : Head, readHead head.toJson = some head
  | .group inner => by
    have hinner := inner.readExpression_toJson
    simp [Head.toJson, Json.form, readHead, hinner]
  | .value literal => rfl
  | .undefined => rfl
  | .array items => by
    have hitems := readExpressions_expressionsJson items
    simp [Head.toJson, Json.form, readHead, hitems]
  | .object fields => by
    have hfields := readPairs_pairsJson fields
    simp [Head.toJson, Json.form, readHead, hfields]
  | .function name arguments => by
    have harguments := readExpressions_expressionsJson arguments
    simp [Head.toJson, Json.form, readHead, readCallFields, readArguments, readText, harguments,
      CallFields.function?]
  | .identifier name => rfl
  | .relative => rfl

theorem Tail.readTail_toJson : ∀ tail : Tail, readTail tail.toJson = some (some tail)
  | .filter filter => by
    have hfilter := filter.readFilter_toJson
    simp [Tail.toJson, Json.form, readTail, hfilter]
  | .subtemplate template => by
    have htemplate := template.readExpression_toJson
    simp [Tail.toJson, Json.form, readTail, htemplate]

theorem Filter.readFilter_toJson : ∀ filter : Filter, readFilter filter.toJson = some filter
  | .simple function arguments each => by
    have harguments := readExpressions_expressionsJson arguments
    simp [Filter.toJson, Json.form, readFilter, readCallFields, readArguments, readText, readBool,
      harguments, CallFields.simple?]
  | .extended statements => by
    have hstatements := readFilterStatements_filterStatementsJson statements
    simp [Filter.toJson, Json.form, readFilter, hstatements]

theorem readFilterStatements_filterStatementsJson : ∀ statements : List FilterStatement,
    readFilterStatements (filterStatementsJson statements) = some statements
  | [] => rfl
  | s :: rest => by
    have hs := s.readFilterStatement_toJson
    have hrest := readFilterStatements_filterStatementsJson rest
    simp [filterStatementsJson, readFilterStatements, hs, hrest]

theorem FilterStatement.readFilterStatement_toJson : ∀ statement : FilterStatement,
    readFilterStatement statement.toJson = some statement
  | .mk target function arguments each => by
    have htarget := readStepItems_stepsJson target
    have harguments := readExpressions_expressionsJson arguments
    simp [FilterStatement.toJson, readFilterStatement, readStatementFields, readSteps,
      readArguments, readText, readBool, htarget, harguments, CallFields.statement?]

theorem readExpressions_expressionsJson : ∀ es : List Expression,
    readExpressions (expressionsJson es) = some es
  | [] => rfl
  | e :: es => by
    have he := e.readExpression_toJson
    have hes := readExpressions_expressionsJson es
    simp [expressionsJson, readExpressions, he, hes]

theorem readPairs_pairsJson : ∀ fields : List (String × Expression),
    readPairs (pairsJson fields) = some fields
  | [] => rfl
  | (key, e) :: rest => by
    have he := e.readExpression_toJson
    have hrest := readPairs_pairsJson rest
    simp [pairsJson, readPairs, he, hrest]

theorem readStepItems_stepsJson : ∀ steps : List Step,
    readStepItems (stepsJson steps) = some steps
  | [] => rfl
  | step :: rest => by
    have hstep := step.readStep_toJson
    have hrest := readStepItems_stepsJson rest
    simp [stepsJson, readStepItems, hstep, hrest]

theorem Step.readStep_toJson : ∀ step : Step, readStep step.toJson = some step
  | .key name => rfl
  | .index index => by simp [Step.toJson, Json.form, readStep]
  | .wildcard => rfl
  | .slice start stop stride => by simp [Step.toJson, Json.form, readStep, readSliceFields]
  | .recursiveKey name => rfl
  | .recursiveIndex index => by simp [Step.toJson, Json.form, readStep]
  | .condition condition => by
    have hcondition := condition.readExpression_toJson
    simp [Step.toJson, Json.form, readStep, hcondition]
  | .attributeFinder name arguments head => by
    have harguments := readExpressions_expressionsJson arguments
    simp [Step.toJson, Json.form, readStep, readCallFields, readArguments, readText, readBool,
      harguments, CallFields.finder?]
end

/-! ## Lists, tables and optional expressions -/

theorem readList_map {α : Type} {read : Json → Option α} {write : α → Json}
    (h : ∀ a, read (write a) = some a) (l : List α) :
    readList read (.array (l.map write)) = some l := by
  rw [readList]
  induction l with
  | nil => rfl
  | cons a rest ih => simp [h, ih]

namespace SortedTable

variable {α : Type}

theorem place_of_forall_gt {key : String} {value : α} {l : List (String × α)}
    (h : ∀ b ∈ l, b.1 < key) : place key value l = l ++ [(key, value)] := by
  induction l with
  | nil => rfl
  | cons b rest ih =>
    obtain ⟨hb, hrest⟩ := List.forall_mem_cons.1 h
    have hne : key ≠ b.1 := fun he => String.lt_irrefl _ (he ▸ hb)
    rw [place, if_neg (String.lt_asymm hb), if_neg hne, ih hrest, List.cons_append]

/-- A table is rebuilt from its bindings. -/
theorem ofList_entries (t : SortedTable α) : ofList t.entries = t := by
  -- The bindings come in ascending order, so each of them goes to the end of those before it.
  suffices hgo : ∀ (l : List (String × α)) (done : SortedTable α),
      (done.entries ++ l).Pairwise (fun a b => a.1 < b.1) →
      (l.foldl (fun t b => t.insert b.1 b.2) done).entries = done.entries ++ l from
    ext (hgo t.entries empty t.ascending)
  intro l
  induction l with
  | nil => exact fun done _ => (List.append_nil _).symm
  | cons b rest ih =>
    intro done hdone
    have hplace : (done.insert b.1 b.2).entries = done.entries ++ [b] :=
      place_of_forall_gt fun a ha =>
        (List.pairwise_append.1 hdone).2.2 a ha b List.mem_cons_self
    rw [List.foldl_cons, ih _ (by simpa [hplace] using hdone), hplace, List.append_assoc]
    rfl

end SortedTable

theorem Imports.ofJson?_toJson (imports : Imports) :
    Imports.ofJson? imports.toJson = some imports := by
  have hread : ∀ l : List (String × String),
      readImportFields (l.map fun b => (b.1, .string b.2)) = some l := by
    intro l
    induction l with
    | nil => rfl
    | cons b rest ih => simp [readImportFields, ih]
  rw [Imports.toJson, Imports.ofJson?, hread, Option.map_some]
  exact congrArg some (SortedTable.ofList_entries imports)

@[simp]
theorem readArguments_expressionsJson (es : List Expression) :
    readArguments (.array (expressionsJson es)) = some es := by
  rw [readArguments, readExpressions_expressionsJson]

/-- An expression is not null, so it is not taken for one that is missing. -/
@[simp]
theorem readOptionalExpression_toJson (e : Expression) :
    readOptionalExpression e.toJson = some (some e) := by
  have hread := e.readExpression_toJson
  cases e <;> simp_all [readOptionalExpression, Expression.toJson, Json.form]

/-! ## Documents and updates -/

theorem readRecord_append {α : Type} (read : α → String → Json → Option α)
    (l₁ l₂ : List (String × Json)) (f : α) :
    readRecord read (l₁ ++ l₂) f = (readRecord read l₁ f).bind (readRecord read l₂) := by
  induction l₁ generalizing f with
  | nil => rfl
  | cons b rest ih =>
    rw [List.cons_append, readRecord, readRecord, Option.bind_assoc]
    exact congrArg _ (funext ih)

/-- A field that is left out of a record where it has no value. -/
theorem readRecord_toList {α β : Type} {read : α → String → Json → Option α} {name : String}
    {write : β → Json} {f : α} (set : Option β → α) (hnone : f = set none)
    (hsome : ∀ b, read f name (write b) = some (set (some b))) (value : Option β) :
    readRecord read (value.map fun b => (name, write b)).toList f = some (set value) := by
  cases value with
  | none => exact congrArg some hnone
  | some b =>
    rw [Option.map_some, Option.toList_some, readRecord, hsome, Option.bind_some, readRecord]

theorem optionalField_eq (name : String) (e? : Option Expression) :
    optionalField name e? = (e?.map fun e => (name, e.toJson)).toList := by
  cases e? <;> rfl

@[simp]
theorem Entitlement.ofJson?_name (e : Entitlement) :
    Entitlement.ofJson? (.string e.name) = some e := by
  cases e <;> rfl

theorem Statement.ofJson?_toJson (s : Statement) : Statement.ofJson? s.toJson = some s := by
  cases s with
  | valueDefinition name value =>
    simp [Statement.toJson, Json.form, Statement.ofJson?, readDefinitionFields, readText,
      value.readExpression_toJson]
  | condition e => simp [Statement.toJson, Json.form, Statement.ofJson?, e.readExpression_toJson]

theorem Document.ofJson?_toJson (d : Document) : Document.ofJson? d.toJson = some d := by
  have himports := Imports.ofJson?_toJson d.imports
  have hbody := readList_map Statement.ofJson?_toJson d.body
  have hfirst (f : DocumentFields) : readRecord DocumentFields.read [("name", .string d.name),
      ("entitlement", .string d.entitlement.name), ("imports", d.imports.toJson)] f =
        some { f with name := d.name, entitlement := d.entitlement, imports := d.imports } := by
    simp [readRecord, DocumentFields.read, readText, himports]
  have htarget (f : DocumentFields) (hf : f.target = none) :
      readRecord DocumentFields.read (optionalField "target" d.target) f =
        some { f with target := d.target } :=
    optionalField_eq _ _ ▸ readRecord_toList (fun target => { f with target }) (by rw [← hf])
      (by simp [DocumentFields.read]) d.target
  have hlists (f : DocumentFields) : readRecord DocumentFields.read
      [("body", .array (d.body.map Statement.toJson)),
        ("obligations", .array (expressionsJson d.obligations)),
        ("advice", .array (expressionsJson d.advice))] f =
        some { f with body := d.body, obligations := d.obligations, advice := d.advice } := by
    simp [readRecord, DocumentFields.read, hbody]
  have htransformation (f : DocumentFields) (hf : f.transformation = none) :
      readRecord DocumentFields.read (optionalField "transformation" d.transformation) f =
        some { f with transformation := d.transformation } :=
    optionalField_eq _ _ ▸ readRecord_toList (fun transformation => { f with transformation })
      (by rw [← hf]) (by simp [DocumentFields.read]) d.transformation
  rw [Document.toJson, Document.ofJson?, recordFields?, Option.bind_eq_bind, Option.bind_some,
    readRecord_append, readRecord_append, readRecord_append, hfirst, Option.bind_some,
    htarget _ rfl, Option.bind_some, hlists, Option.bind_some, htransformation _ rfl]
  rfl

theorem Update.ofJson?_toJson (u : Update) : Update.ofJson? u.toJson = some u := by
  cases u with
  | publish d => simp [Update.toJson, Json.form, Update.ofJson?, d.ofJson?_toJson]
  | withdraw name => rfl
  | markConsistent => rfl
  | markInconsistent => rfl

/-- A document without constraints, written with its name and its entitlement only. -/
theorem Document.ofJson?_short (name : String) (entitlement : Entitlement) :
    Document.ofJson? (.object [("name", .string name), ("entitlement", .string entitlement.name)]) =
      some { name, entitlement } := by
  simp [Document.ofJson?, recordFields?, readRecord, DocumentFields.read, DocumentFields.finish,
    readText]

/-- Documents and batches of updates read back from their JSON form as they were. A target or a
transformation that is not there is left out of it, and any field with a default may be missing. -/
theorem publications_survive_json :
    (∀ d : Document, Document.ofJson? d.toJson = some d ∧
      d.toJson.field? "target" = d.target.map Expression.toJson ∧
      d.toJson.field? "transformation" = d.transformation.map Expression.toJson) ∧
    (∀ b : UpdateBatch, UpdateBatch.ofJson? b.toJson = some b) ∧
    ∀ (name : String) (entitlement : Entitlement),
      Document.ofJson? (.object [("name", .string name),
        ("entitlement", .string entitlement.name)]) = some { name, entitlement } := by
  refine ⟨fun d => ⟨d.ofJson?_toJson, ?_, ?_⟩, fun b => ?_, Document.ofJson?_short⟩
  · rw [Document.toJson]
    cases d.target <;> cases d.transformation <;> rfl
  · rw [Document.toJson]
    cases d.target <;> cases d.transformation <;> rfl
  · have hupdates := readList_map Update.ofJson?_toJson b.updates
    rw [UpdateBatch.toJson, UpdateBatch.ofJson?, recordFields?, Option.bind_eq_bind,
      Option.bind_some]
    show (readList Update.ofJson? (.array (b.updates.map Update.toJson))).bind _ = _
    rw [hupdates]
    rfl

end PolicyDecision
