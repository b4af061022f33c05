import PolicyDecision.Evaluation.Document

/-!
# PolicyDecision.Proofs.Evaluation.Bindings

The variables of a subscription stay bound in every context that is derived from it.

A binding of one of their names is refused. So it is enough to look at the names: what is bound
later has another name.

* `Context.putAll`: bindings whatever the names are, as those of a subscription.
* `Context.bindAll_eq_ok_iff`: when bindings are not refused.
* `Statement.outcome_eq_ok_iff`: when the statements behind a statement are evaluated, and in which
  context.
* `Context.Derivation`, `Context.derive`: one derivation; one that is refused changes nothing.
* `Context.Binds.derive`: a derivation keeps the variables of a subscription.
* `Context.Binds.deriveAll`: so do all derivations one after the other.
-/

namespace PolicyDecision

/-! ## Names of attributes -/

theorem Subscription.nodup_attributes (s : Subscription) : (Entries.keys s.attributes).Nodup := by
  show reservedNames.Nodup
  decide

/-- A name that can be bound is not that of an attribute. -/
theorem Subscription.ne_of_mem {s : Subscription} {a : String × Json} {name : String}
    (ha : a ∈ s.attributes) (hname : isReserved name = false) : a.1 ≠ name := by
  rintro rfl
  have hkeys : s.attributes.map (·.1) = reservedNames := rfl
  have hreserved : isReserved a.1 = true :=
    List.contains_iff_mem.2 (hkeys ▸ List.mem_map_of_mem ha)
  rw [hname] at hreserved
  cases hreserved

variable {ctx next : Context}

namespace Context

/-! ## Bindings -/

/-- Bind a variable whatever its name is. -/
def put (ctx : Context) (name : String) (value : Val) : Context :=
  { ctx with bindings := Entries.put name value ctx.bindings }

def putAll (ctx : Context) : List (String × Json) → Context
  | [] => ctx
  | (name, value) :: rest => (ctx.put name (.defined value)).putAll rest

theorem subscribe_eq_putAll (ctx : Context) (s : Subscription) :
    ctx.subscribe s = ctx.putAll s.attributes := rfl

theorem bind_eq_ok_iff {name : String} {value : Val} :
    ctx.bind name value = .ok next ↔ isReserved name = false ∧ next = ctx.put name value := by
  rw [bind]
  cases isReserved name with
  | true => simp
  | false => simp [put, eq_comm (a := next)]

theorem bindAll_eq_ok_iff {values : List (String × Json)} : ctx.bindAll values = .ok next ↔
    (∀ b ∈ values, isReserved b.1 = false) ∧ next = ctx.putAll values := by
  induction values generalizing ctx with
  | nil => simp [bindAll, putAll, eq_comm (a := next)]
  | cons b rest ih =>
    rw [List.forall_mem_cons, putAll, and_assoc, ← ih, bindAll]
    cases hbind : ctx.bind b.1 (.defined b.2) with
    | ok first =>
      obtain ⟨hname, rfl⟩ := bind_eq_ok_iff.1 hbind
      exact (and_iff_right hname).symm
    | error e =>
      have hname : ¬ isReserved b.1 = false := fun hname => by
        rw [bind_eq_ok_iff.2 ⟨hname, rfl⟩] at hbind
        cases hbind
      exact iff_of_false nofun fun h => hname h.1

theorem valueOf_put_self (name : String) (value : Val) :
    (ctx.put name value).valueOf name = value := by
  rw [valueOf, put, Entries.lookup_put_self, Option.getD_some]

theorem valueOf_put_ne {name other : String} (value : Val) (h : other ≠ name) :
    (ctx.put name value).valueOf other = ctx.valueOf other := by
  rw [valueOf, put, Entries.lookup_put_ne value ctx.bindings h, valueOf]

/-- Other variables keep their values. -/
theorem valueOf_putAll_of_not_mem {values : List (String × Json)} {name : String}
    (h : name ∉ Entries.keys values) : (ctx.putAll values).valueOf name = ctx.valueOf name := by
  induction values generalizing ctx with
  | nil => rfl
  | cons b rest ih =>
    obtain ⟨hne, hrest⟩ := not_or.1 (mt List.mem_cons.2 h)
    rw [putAll, ih hrest, valueOf_put_ne _ hne]

theorem valueOf_putAll_of_mem {values : List (String × Json)} {b : String × Json}
    (hnodup : (Entries.keys values).Nodup) (hb : b ∈ values) :
    (ctx.putAll values).valueOf b.1 = .defined b.2 := by
  induction values generalizing ctx with
  | nil => cases hb
  | cons first rest ih =>
    obtain ⟨hfirst, hrest⟩ := List.nodup_cons.1 hnodup
    rw [putAll]
    rcases List.mem_cons.1 hb with rfl | hb
    · rw [valueOf_putAll_of_not_mem hfirst, valueOf_put_self]
    · exact ih hrest hb

end Context

/-! ## Statements -/

namespace Statement

/-- Whether the statements behind a statement are evaluated, given its value. -/
def accepts : Statement → Val → Bool
  | .condition _, v => v.bool? == some true
  | .valueDefinition name _, v => !v.isError && !isReserved name

/-- The context in which they are evaluated. -/
def contextAfter (ctx : Context) (v : Val) : Statement → Context
  | .condition _ => ctx
  | .valueDefinition name _ => ctx.put name v

theorem outcome_eq_ok_iff {s : Statement} {v : Val} :
    s.outcome v ctx = .ok next ↔ s.accepts v = true ∧ next = s.contextAfter ctx v := by
  cases s with
  | condition e =>
    rw [outcome, accepts, contextAfter]
    rcases v.bool? with _ | _ | _
    · simp
    · simp
    · simp [eq_comm (a := next)]
  | valueDefinition name e =>
    rw [outcome, accepts, contextAfter]
    cases v.isError with
    | true => simp
    | false =>
      cases hbind : ctx.bind name v with
      | ok bound =>
        obtain ⟨hname, rfl⟩ := Context.bind_eq_ok_iff.1 hbind
        simp [hname, eq_comm (a := next)]
      | error e =>
        have hname : isReserved name = true := by
          rw [Context.bind] at hbind
          split at hbind
          · assumption
          · cases hbind
        simp [hname]

end Statement

namespace Context

/-! ## Derivations -/

inductive Derivation where
  | bind (name : String) (value : Val)
  | bindAll (values : List (String × Json))
  | withImports (imports : Imports)
  | withRelative (node : Val)
  | forTarget

/-- The derived context, or the same one where the binding is refused. -/
def derive (ctx : Context) : Derivation → Context
  | .bind name value => (ctx.bind name value).toOption.getD ctx
  | .bindAll values => (ctx.bindAll values).toOption.getD ctx
  | .withImports imports => ctx.withImports imports
  | .withRelative node => ctx.withRelative node
  | .forTarget => ctx.forTarget

def deriveAll (ctx : Context) (derivations : List Derivation) : Context :=
  derivations.foldl derive ctx

/-- The variables are bound to their values. -/
def Binds (ctx : Context) (values : List (String × Json)) : Prop :=
  ∀ b ∈ values, ctx.valueOf b.1 = .defined b.2

theorem Binds.withRelative {values : List (String × Json)} (h : ctx.Binds values) (node : Val) :
    (ctx.withRelative node).Binds values := h

variable {s : Subscription}

theorem binds_subscribe (ctx : Context) (s : Subscription) :
    (ctx.subscribe s).Binds s.attributes :=
  fun _ ha => valueOf_putAll_of_mem s.nodup_attributes ha

theorem Binds.bind {name : String} {value : Val} (h : ctx.Binds s.attributes)
    (hbind : ctx.bind name value = .ok next) : next.Binds s.attributes := by
  obtain ⟨hname, rfl⟩ := bind_eq_ok_iff.1 hbind
  intro a ha
  rw [valueOf_put_ne value (s.ne_of_mem ha hname)]
  exact h a ha

theorem Binds.bindAll {values : List (String × Json)} (h : ctx.Binds s.attributes)
    (hbind : ctx.bindAll values = .ok next) : next.Binds s.attributes := by
  obtain ⟨hnames, rfl⟩ := bindAll_eq_ok_iff.1 hbind
  intro a ha
  have hfree : a.1 ∉ Entries.keys values := by
    intro hmem
    obtain ⟨b, hb, hkey⟩ := List.mem_map.1 hmem
    exact s.ne_of_mem ha (hnames b hb) hkey.symm
  rw [valueOf_putAll_of_not_mem hfree]
  exact h a ha

theorem Binds.derive (h : ctx.Binds s.attributes) (derivation : Derivation) :
    (ctx.derive derivation).Binds s.attributes := by
  cases derivation with
  | bind name value =>
    rw [Context.derive]
    cases hbind : ctx.bind name value with
    | ok next => exact h.bind hbind
    | error e => exact h
  | bindAll values =>
    rw [Context.derive]
    cases hbind : ctx.bindAll values with
    | ok next => exact h.bindAll hbind
    | error e => exact h
  | withImports imports => exact h
  | withRelative node => exact h.withRelative node
  | forTarget => exact h

theorem Binds.deriveAll (h : ctx.Binds s.attributes) (derivations : List Derivation) :
    (ctx.deriveAll derivations).Binds s.attributes := by
  induction derivations generalizing ctx with
  | nil => exact h
  | cons derivation rest ih => exact ih (h.derive derivation)

end Context
end PolicyDecision
