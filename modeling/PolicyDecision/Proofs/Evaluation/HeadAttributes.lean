import PolicyDecision.Attribute.Finders
import PolicyDecision.Proofs.Evaluation.StreamClass
import PolicyDecision.Proofs.Stream.FirstItem

/-!
# PolicyDecision.Proofs.Evaluation.HeadAttributes

Attribute steps that take the first value only.

With its first value such a step drops the subscription of its attribute, and those of the attributes
in its arguments. So an expression in which all attribute steps are like this has one value at most.

* `Step.apply_head`: the step gives the first item of the step without `head`.
* `StreamClass.oneShot`: the streams of at most one item are a class, in which `head` steps are.
* `headAttribute_once`: what a step and an expression give over a whole run.
-/

namespace PolicyDecision

theorem Stream.first_just {α : Type} (a : α) : (Stream.just a).first = .just a := rfl

/-- The flag `head` only takes the first item; faults are single items in any case. -/
theorem followAttribute_head (name : String) (arguments : List (Stream Val)) (parent : Val)
    (ctx : Context) : followAttribute name arguments true parent ctx =
      (followAttribute name arguments false parent ctx).first := by
  unfold followAttribute
  split
  · exact (Stream.first_just _).symm
  · split
    · exact (Stream.first_just _).symm
    · rfl

theorem Step.apply_head (name : String) (arguments : List Expression) (parent : Val)
    (ctx : Context) : (Step.attributeFinder name arguments true).apply parent ctx =
      ((Step.attributeFinder name arguments false).apply parent ctx).first := by
  cases parent with
  | error message =>
    rw [Step.apply, Step.apply]
    exact (Stream.first_just _).symm
  | undefined =>
    rw [Step.apply, Step.apply]
    exact followAttribute_head name _ _ ctx
    all_goals nofun
  | defined j =>
    rw [Step.apply, Step.apply]
    exact followAttribute_head name _ _ ctx
    all_goals nofun

/-! ## Expressions -/

namespace StreamClass

/-- The streams of at most one item. -/
def oneShot : StreamClass where
  mem s := s.IsOneShot
  just a := .just a
  map f _ h := h.map f
  combineLatest f _ h := .combineLatest f h
  switchMap hs h := hs.switchMap h

theorem admits_head : oneShot.Admits (fun _ => True) (· = true) where
  withRelative _ _ _ := trivial
  withImports _ _ _ := trivial
  bind _ _ _ _ _ _ := trivial
  follow ctx _ head hhead name arguments parent _ := by
    subst hhead
    rw [followAttribute_head]
    exact Stream.IsOneShot.first _

end StreamClass

/-- An attribute step with `head` gives the first value of the same step without it, and stops with
it: then it has ended, none of its subscriptions is left, neither that of the attribute nor those of
its arguments, and no later change of a source reaches it. This does not depend on the attribute: it
holds for any streams of arguments, and any stream for their values. So an expression in which all
attribute steps have `head` gives one value at most. -/
theorem headAttribute_once :
    (∀ name arguments parent ctx,
      ((Step.attributeFinder name arguments true).apply parent ctx).IsFirstOf
        ((Step.attributeFinder name arguments false).apply parent ctx)) ∧
      (∀ (arguments : List (Stream Val)) (finder : List Val → Stream Val),
        ((Stream.combineLatest arguments id).switchMap finder).first.IsFirstOf
          ((Stream.combineLatest arguments id).switchMap finder)) ∧
      ∀ (e : Expression) (ctx : Context), (∀ head ∈ e.headFlags, head = true) → ∀ now turns,
        (Session.run (e.evaluate ctx) now turns).2.length ≤ 1 ∧
          ((Session.run (e.evaluate ctx) now turns).2 ≠ [] →
            (Session.run (e.evaluate ctx) now turns).1.IsOver) := by
  refine ⟨fun name arguments parent ctx => ?_, fun _ _ => Stream.isFirstOf_first _,
    fun e ctx he now turns => ?_⟩
  · rw [Step.apply_head]
    exact Stream.isFirstOf_first _
  · have hone : (e.evaluate ctx).IsOneShot :=
      StreamClass.admits_head.evaluate e he ctx trivial
    refine ⟨?_, hone.isOver⟩
    rcases hone.run now turns with ⟨hnone, _⟩ | ⟨v, hv, _⟩
    · rw [hnone]
      exact Nat.zero_le 1
    · rw [hv, List.length_singleton]

/-- A door has a live state; what it is asked for is a live attribute as well. -/
def doorContext : Context :=
  { attributes := ⟨(SortedTable.empty.insert "state" (AttributeFinder.live "door")).insert "level"
      (AttributeFinder.live "level")⟩ }

/-- The first state at a level, which is followed or is the first one too. -/
def doorExpression (head : Bool) : Expression :=
  let level := Expression.basic (.value (.bool true)) [.attributeFinder "level" [] head] none
  .basic (.value (.bool true)) [.attributeFinder "state" [level] true] none

/-- The level changes before there is a state, and everything changes after that. -/
def doorTurns : List Session.Turn :=
  [.push "level" (.ofBool true), .push "level" (.ofBool false), .push "door" (.ofBool true),
    .push "level" (.ofBool true), .push "door" (.ofBool false)]

theorem headAttribute_once_door :
    (∀ head ∈ (doorExpression true).headFlags, head = true) ∧
      (Session.run ((doorExpression true).evaluate doorContext) (fun _ => {}) doorTurns).2.map
        Val.text = ["true"] ∧
      (Session.run ((doorExpression true).evaluate doorContext) (fun _ => {}) doorTurns).1.IsOver := by
  have hitems : (Session.run ((doorExpression true).evaluate doorContext) (fun _ => {})
      doorTurns).2.map Val.text = ["true"] := by decide +kernel
  obtain ⟨_, hover⟩ := headAttribute_once.2.2 (doorExpression true) doorContext (by decide)
    (fun _ => {}) doorTurns
  refine ⟨by decide, hitems, hover fun hnone => ?_⟩
  rw [hnone] at hitems
  cases hitems

/-- With a level that is followed, a state is asked for twice before there is one. No subscription of
either is left then. -/
example :
    (Session.run ((doorExpression false).evaluate doorContext) (fun _ => {}) doorTurns).2.map
        Val.text = ["true"] ∧
      (Session.run ((doorExpression false).evaluate doorContext) (fun _ => {}) doorTurns).1.feeds =
        [] := by
  decide +kernel

end PolicyDecision
