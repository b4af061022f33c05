import Mathlib.Tactic.Choose
import PolicyDecision.Proofs.Evaluation.StreamClass
import PolicyDecision.Proofs.Stream.Delivery

/-!
# PolicyDecision.Proofs.Stream.Settling

Streams that begin with an item and follow their live sources from there.

* `Stream.Settles`: a subscription gives one item at once, and tracks it.
* `Stream.Settles.map`, `Stream.Settles.combineLatest`, `Stream.Settles.switchMap`: the combinators
  keep it.
* `StreamClass.settling`: these streams are a class.
* `AttributeRegistry.IsWarm`: attributes are warm sources or single values; following one settles.
-/

namespace PolicyDecision

variable {α β : Type} {warm : String → Prop}

/-- Under warm sources, a subscription gives `value` of the snapshot at once, and tracks it. -/
structure Stream.Settles (warm : String → Prop) (s : Stream α) (value : Snapshot → α) : Prop where
  emits : ∀ now place, now.IsWarm warm → ∃ calls, (s now place).Emits [] calls (value now)
  tracks : ∀ now place, now.IsWarm warm →
    Tracks warm now (fun _ => False) value place (s now place).rest (value now)

namespace Flow

/-- Flows of one item each that start together give one combination. -/
theorem combine_emits (f : List α → β) {n : Nat} (hn : 0 < n) {flows : Fin n → Flow α}
    {calls : Fin n → List FinderCall} {latest : Fin n → α}
    (h : ∀ i, (flows i).Emits [] (calls i) (latest i)) :
    Flow.combine f (List.replicate n none) (List.ofFn flows) (List.range n) =
      ⟨Event.prompt (List.ofFn calls).flatten (f (List.ofFn latest)),
        .combine f (List.ofFn fun i => some (latest i)) (List.ofFn fun i => (flows i).rest)⟩ := by
  have hevents : (List.ofFn flows).map Flow.events =
      (List.ofFn fun i => (calls i, latest i)).map fun r => Event.prompt r.1 r.2 := by
    rw [List.map_ofFn, List.map_ofFn]
    congr
    funext i
    exact (h i).events
  have hne : (List.ofFn fun i => (calls i, latest i)) ≠ [] := by
    intro hnil
    have hlength := congrArg List.length hnil
    rw [List.length_ofFn, List.length_nil] at hlength
    omega
  have hcombine := combine_prompt f (List.ofFn flows) _ hne hevents
  rw [List.length_ofFn] at hcombine
  rw [hcombine, List.flatMap_def]
  simp only [List.map_ofFn, Function.comp_def]

end Flow

namespace Stream

theorem combineLatest_apply (sources : List (Stream α)) (hne : sources ≠ []) (f : List α → β)
    (now : Snapshot) (place : Place) :
    combineLatest sources f now place =
      Flow.combine f (List.replicate sources.length none)
        (List.ofFn fun i : Fin sources.length => sources[i] now (i.val :: place))
        (List.range sources.length) := by
  have hflows : (sources.mapIdx fun i source => source now (i :: place)) =
      List.ofFn fun i : Fin sources.length => sources[i] now (i.val :: place) := by
    refine List.ext_getElem (by simp) fun i h₁ h₂ => ?_
    simp
  rw [combineLatest, if_neg (by simpa using hne), hflows]

theorem switchMap_apply (source : Stream α) (stream : α → Stream β) (now : Snapshot)
    (place : Place) : source.switchMap stream now place =
      Flow.switch stream now place 0 (source now (0 :: place)) ⟨[], .ended⟩ := rfl

namespace Settles

theorem just (a : α) : (Stream.just a).Settles warm fun _ => a where
  emits now place _ := by
    refine ⟨[], rfl, ?_⟩
    intro φ hφ
    rw [Stream.just, Flow.just, Rest.feeds] at hφ
    cases hφ
  tracks now place _ := .ended fun _ _ => rfl

theorem map {s : Stream α} {value : Snapshot → α} (h : s.Settles warm value) (f : α → β) :
    (s.map f).Settles warm fun now => f (value now) where
  emits now place hnow := by
    obtain ⟨calls, hemits⟩ := h.emits now place hnow
    exact ⟨calls, hemits.map f⟩
  tracks now place hnow := (h.tracks now place hnow).map f

theorem combineLatest {sources : List (Stream α)} (hne : sources ≠ [])
    {values : Fin sources.length → Snapshot → α}
    (h : ∀ i : Fin sources.length, sources[i].Settles warm (values i)) (f : List α → β) :
    (Stream.combineLatest sources f).Settles warm
      fun now => f (List.ofFn fun i => values i now) where
  emits now place hnow := by
    have hcalls := fun i => (h i).emits now (i.val :: place) hnow
    choose calls hemits using hcalls
    refine ⟨(List.ofFn calls).flatten, ?_⟩
    rw [combineLatest_apply sources hne, Flow.combine_emits f (List.length_pos_iff.2 hne) hemits]
    refine ⟨rfl, ?_⟩
    intro φ hφ
    obtain ⟨i, hφ⟩ := Rest.mem_feeds_combine.1 hφ
    rcases (hemits i).announced φ hφ with hold | ⟨call, hcall, hplace⟩
    · cases hold
    · exact .inr ⟨call, List.mem_flatten_of_mem (List.mem_ofFn.2 ⟨i, rfl⟩) hcall, hplace⟩
  tracks now place hnow := by
    have hcalls := fun i => (h i).emits now (i.val :: place) hnow
    choose calls hemits using hcalls
    rw [combineLatest_apply sources hne, Flow.combine_emits f (List.length_pos_iff.2 hne) hemits]
    exact .combine (fun i => (h i).tracks now (i.val :: place) hnow) f

theorem switchMap {s : Stream α} {value : Snapshot → α} {stream : α → Stream β}
    {values : α → Snapshot → β} (hs : s.Settles warm value)
    (h : ∀ a, (stream a).Settles warm (values a)) :
    (s.switchMap stream).Settles warm fun now => values (value now) now where
  emits now place hnow := by
    obtain ⟨calls, houter⟩ := hs.emits now (0 :: place) hnow
    obtain ⟨inside, hinner⟩ := (h (value now)).emits now (1 :: place) hnow
    rw [switchMap_apply]
    exact ⟨calls ++ inside, houter.switch hinner⟩
  tracks now place hnow := by
    obtain ⟨calls, houter⟩ := hs.emits now (0 :: place) hnow
    rw [switchMap_apply, houter.switch_eq]
    exact .switch Nat.one_pos (fun a => (h a).emits) (fun a => (h a).tracks)
      (hs.tracks now (0 :: place) hnow) ((h (value now)).tracks now (1 :: place) hnow)

end Settles
end Stream

namespace StreamClass

/-- The streams that settle under warm sources. -/
def settling (warm : String → Prop) : StreamClass where
  mem s := ∃ value, s.Settles warm value
  just a := ⟨_, .just a⟩
  map := by
    rintro α β f s ⟨value, h⟩
    exact ⟨_, h.map f⟩
  combineLatest := by
    intro α β f sources h
    by_cases hne : sources = []
    · subst hne
      exact ⟨_, .just (f [])⟩
    · have hvalues := fun i : Fin sources.length => h sources[i] (List.getElem_mem _)
      choose values hvalues using hvalues
      exact ⟨_, .combineLatest hne hvalues f⟩
  switchMap := by
    rintro α β s stream ⟨value, hs⟩ h
    choose values h using h
    exact ⟨_, hs.switchMap h⟩

end StreamClass

/-! ## Attributes -/

/-- Every attribute is a warm source, or one value. -/
def AttributeRegistry.IsWarm (warm : String → Prop) (registry : AttributeRegistry) : Prop :=
  ∀ name finder, registry.finders.get? name = some finder → ∀ parent arguments bindings,
    (∃ v, finder parent arguments bindings = .values [v]) ∨
      ∃ source, warm source ∧ finder parent arguments bindings = .live source

namespace Stream.Settles

/-- The record of a call comes first; it announces the subscription. -/
theorem live {source : String} (hsource : warm source) (name : String) (parent : Val)
    (arguments : List Val) :
    Settles warm (fun now place => (Stream.live source now place).called
      ⟨name, parent, arguments, place⟩) fun now => now.latest source where
  emits now place hnow := by
    refine ⟨[⟨name, parent, arguments, place⟩], ?_, ?_⟩
    · rw [Stream.live, hnow source hsource]
      rfl
    · intro φ hφ
      rw [Stream.live, hnow source hsource] at hφ
      simp only [Flow.called, Bool.false_eq_true, if_false, Rest.feeds, List.mem_singleton] at hφ
      rw [hφ]
      exact .inr ⟨_, List.mem_singleton_self _, rfl⟩
  tracks now place hnow := by
    rw [Stream.live, hnow source hsource]
    let feed : Feed := ⟨place, source⟩
    change Tracks warm now _ (fun now' => id (now'.latest feed.source)) feed.place
      (.awaiting feed id) _
    exact .awaiting hsource fun _ => rfl

theorem value (v : Val) (name : String) (parent : Val) (arguments : List Val) :
    Settles warm (fun now place => (Stream.ofList [v] now place).called
      ⟨name, parent, arguments, place⟩) fun _ => v where
  emits now place _ := by
    refine ⟨[⟨name, parent, arguments, place⟩], rfl, ?_⟩
    intro φ hφ
    simp only [Stream.ofList, Flow.ofList, Flow.called, Rest.feeds] at hφ
    cases hφ
  tracks now place _ := .ended fun _ _ => rfl

theorem follow {registry : AttributeRegistry} (h : registry.IsWarm warm) (name : String)
    (parent : Val) (arguments : List Val) (bindings : Variables) :
    ∃ value, (registry.follow name parent arguments bindings).Settles warm value := by
  unfold AttributeRegistry.follow
  cases hfinder : registry.finders.get? name with
  | none => exact ⟨_, just _⟩
  | some finder =>
    rcases h name finder hfinder parent arguments bindings with ⟨v, hv⟩ | ⟨source, hsource, hv⟩
    · simp only [hv, Reply.stream]
      exact ⟨_, value v name parent arguments⟩
    · simp only [hv, Reply.stream]
      exact ⟨_, live hsource name parent arguments⟩

end Stream.Settles

/-- Attribute steps without `head` follow warm attributes only. -/
theorem StreamClass.admits_warm (warm : String → Prop) :
    (settling warm).Admits (fun ctx => ctx.attributes.IsWarm warm) (· = false) where
  withRelative _ _ h := h
  withImports _ _ h := h
  bind ctx name value next h hnext := by
    unfold Context.bind at hnext
    split at hnext
    · cases hnext
    · cases hnext
      exact h
  follow ctx h head hhead name arguments parent harguments := by
    subst hhead
    unfold followAttribute
    split
    · exact (settling warm).fault _
    · split
      · exact (settling warm).fault _
      · refine (settling warm).switchMap ((settling warm).combineLatest id harguments) fun values => ?_
        split
        · exact (settling warm).just _
        · exact Stream.Settles.follow h _ _ _ _

end PolicyDecision
