import PolicyDecision.Proofs.Evaluation.Substitution
import PolicyDecision.Retrieval.Point

/-!
# PolicyDecision.Proofs.Retrieval.Variables

Which variables an evaluation sees.

The names of the variables that are bound for every evaluation are checked when the configuration is
validated, and once more when they are bound. Both checks refuse the same names.

* `RetrievalPoint.create_eq`: after the validation nothing is refused.
* `Context.Upholds`: a subscription's variables have their values wherever they are looked at.
* `Subscription.variables_unshadowed`: they do in every derived context, and every configured
  variable has its value beside them.
-/

namespace PolicyDecision

theorem SortedTable.nodup_keys {α : Type} (t : SortedTable α) : t.keys.Nodup := by
  refine List.Pairwise.imp ?_ t.keys_ascending
  rintro key _ hlt rfl
  exact String.lt_irrefl _ hlt

theorem Configuration.isReserved_of_validate {c : Configuration} (h : c.validate = .ok ())
    {b : String × Json} (hb : b ∈ c.globals.entries) : isReserved b.1 = false := by
  rw [validate] at h
  split at h
  · cases h
  · split at h
    · cases h
    · next hnone =>
      have hkey : b.1 ∈ c.globals.keys := List.mem_map_of_mem hb
      exact Bool.not_eq_true _ ▸ List.find?_eq_none.1 hnone _ hkey

namespace RetrievalPoint

variable {c : Configuration} {attributes : AttributeRegistry} {functions : FunctionLibrary}
  {patterns : PatternDialect} {p : RetrievalPoint}

/-- The point with all configured variables bound, or the error of the validation. -/
theorem create_eq (c : Configuration) (attributes : AttributeRegistry)
    (functions : FunctionLibrary) (patterns : PatternDialect) :
    create c attributes functions patterns = c.validate.map fun _ =>
      { index := .create c.index
        context := Context.putAll { attributes, functions, patterns } c.globals.entries } := by
  rw [create]
  cases hvalid : c.validate with
  | error e => rfl
  | ok u =>
    have hfree : ∀ b ∈ c.globals.entries, isReserved b.1 = false :=
      fun b hb => Configuration.isReserved_of_validate hvalid hb
    have hbound : Context.bindAll { attributes, functions, patterns } c.globals.entries =
        .ok (Context.putAll { attributes, functions, patterns } c.globals.entries) :=
      Context.bindAll_eq_ok_iff.2 ⟨hfree, rfl⟩
    simp only [hbound]
    rfl

theorem valueOf_contextFor (hcreate : create c attributes functions patterns = .ok p)
    (s : Subscription) {b : String × Json} (hb : b ∈ c.globals.entries) :
    (p.contextFor s).valueOf b.1 = .defined b.2 := by
  rw [create_eq] at hcreate
  cases hvalid : c.validate with
  | error e =>
    rw [hvalid] at hcreate
    cases hcreate
  | ok u =>
    rw [hvalid] at hcreate
    cases hcreate
    have hfree : b.1 ∉ Entries.keys s.attributes := by
      intro hmem
      obtain ⟨a, ha, hkey⟩ := List.mem_map.1 hmem
      exact s.ne_of_mem ha (Configuration.isReserved_of_validate hvalid hb) hkey
    rw [contextFor, Context.subscribe_eq_putAll, Context.valueOf_putAll_of_not_mem hfree]
    exact Context.valueOf_putAll_of_mem c.globals.nodup_keys hb

end RetrievalPoint

/-- The variables of a subscription have their values in a context: as names, and as literals would
in every expression and in every document that is evaluated in it. -/
structure Context.Upholds (ctx : Context) (s : Subscription) : Prop where
  values : ∀ a ∈ s.attributes, ctx.valueOf a.1 = .defined a.2
  identifiers : ∀ a ∈ s.attributes,
    (Expression.identifier a.1).evaluate ctx = .just (.defined a.2)
  expressions (e : Expression) : (e.substitute s.attributes).evaluate ctx = e.evaluate ctx
  documents (d : Document) : (d.substitute s.attributes).evaluate ctx = d.evaluate ctx

theorem Context.Binds.upholds {ctx : Context} {s : Subscription} (h : ctx.Binds s.attributes) :
    ctx.Upholds s where
  values := h
  identifiers a ha := congrArg Stream.just (h a ha)
  expressions e := e.evaluate_substitute h
  documents d := d.evaluate_substitute h

/-- No derivation of a context hides a variable of its subscription. A retrieval point is made if
and only if the configuration is valid, and then every configured variable has its value. -/
theorem Subscription.variables_unshadowed :
    (∀ (ctx : Context) (s : Subscription) (derivations : List Context.Derivation),
      ((ctx.subscribe s).deriveAll derivations).Upholds s) ∧
    ∀ (c : Configuration) (attributes : AttributeRegistry) (functions : FunctionLibrary)
      (patterns : PatternDialect),
      ((∃ p, RetrievalPoint.create c attributes functions patterns = .ok p) ↔
        c.validate = .ok ()) ∧
      ∀ p, RetrievalPoint.create c attributes functions patterns = .ok p → ∀ s : Subscription,
        (p.contextFor s).Upholds s ∧
          ∀ b ∈ c.globals.entries, (p.contextFor s).valueOf b.1 = .defined b.2 := by
  refine ⟨fun ctx s derivations => ((ctx.binds_subscribe s).deriveAll derivations).upholds,
    fun c attributes functions patterns => ⟨?_, fun p hp s =>
      ⟨(p.context.binds_subscribe s).upholds, fun b hb => p.valueOf_contextFor hp s hb⟩⟩⟩
  rw [RetrievalPoint.create_eq]
  cases c.validate with
  | error e => exact iff_of_false (fun h => nomatch h) nofun
  | ok u => exact iff_of_true ⟨_, rfl⟩ rfl

/-- One variable beside those of the subscription. -/
def tenantConfiguration : Configuration :=
  { globals := SortedTable.empty.insert "tenant" (.string "acme") }

theorem Subscription.variables_unshadowed_tenant :
    tenantConfiguration.validate = .ok () ∧
      ∃ p, RetrievalPoint.create tenantConfiguration .empty .standard = .ok p ∧
        ∀ s : Subscription, (p.contextFor s).Upholds s ∧
          (p.contextFor s).valueOf "tenant" = .defined (.string "acme") := by
  have hvalid : tenantConfiguration.validate = .ok () := rfl
  obtain ⟨hcreate, hbound⟩ := variables_unshadowed.2 tenantConfiguration .empty .standard .standard
  obtain ⟨p, hp⟩ := hcreate.2 hvalid
  exact ⟨hvalid, p, hp, fun s => ⟨(hbound p hp s).1, (hbound p hp s).2 _ (.head _)⟩⟩

end PolicyDecision
