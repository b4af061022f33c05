import PolicyDecision.OrderedSet

/-!
# PolicyDecision.Formula.Literal

Literals: boolean constants, and predicates that may be negated.

* `Literal.rank`: the order of literals. Constants come first, then predicates by their number, each
  before its negation.
* `Literal.negate`, `Literal.contradicts`, `Literal.holds`.
* `Literal.text`, `Literal.ofText?`: the written form.
-/

namespace PolicyDecision

/-- The number of a predicate that documents share. -/
abbrev PredicateId := Nat

/-- What predicates are worth. -/
abbrev Assignment := PredicateId → Bool

inductive Literal where
  | constant (value : Bool)
  | predicate (id : PredicateId) (negated : Bool)
deriving DecidableEq

namespace Literal

def rank : Literal → Nat
  | constant value => value.toNat
  | predicate id negated => 2 * id + negated.toNat + 2

theorem rank_injective {a b : Literal} (h : a.rank = b.rank) : a = b := by
  cases a with
  | constant u =>
    cases b with
    | constant v => cases u <;> cases v <;> simp_all [rank]
    | predicate j n =>
      simp only [rank] at h
      have hu := u.toNat_lt
      omega
  | predicate i m =>
    cases b with
    | constant v =>
      simp only [rank] at h
      have hv := v.toNat_lt
      omega
    | predicate j n =>
      simp only [rank] at h
      have hm := m.toNat_lt
      have hn := n.toNat_lt
      have hij : @Eq Nat i j := by omega
      have hmn : m = n := by
        cases m <;> cases n <;> simp_all
      rw [hij, hmn]

instance : Ord Literal := ⟨fun a b => compare a.rank b.rank⟩

instance : Std.TransOrd Literal :=
  inferInstanceAs (Std.TransCmp (compareOn rank))

instance : Std.LawfulEqOrd Literal where
  compare_self {a} := show compare a.rank a.rank = .eq from Std.ReflCmp.compare_self
  eq_of_compare {a b} h :=
    rank_injective (Std.LawfulEqCmp.eq_of_compare (show compare a.rank b.rank = .eq from h))

def ofPredicate (id : PredicateId) : Literal := predicate id false

def isNegated : Literal → Bool
  | constant _ => false
  | predicate _ negated => negated

def predicate? : Literal → Option PredicateId
  | constant _ => none
  | predicate id _ => some id

def constant? : Literal → Option Bool
  | constant value => some value
  | predicate _ _ => none

def negate : Literal → Literal
  | constant value => constant (!value)
  | predicate id negated => predicate id (!negated)

/-- The same literal of a renamed predicate. -/
def rename (f : PredicateId → PredicateId) : Literal → Literal
  | constant value => constant value
  | predicate id negated => predicate (f id) negated

/-- Whether two literals are a predicate and its negation. -/
def contradicts : Literal → Literal → Bool
  | predicate i m, predicate j n => i == j && m != n
  | _, _ => false

/-- The truth of a literal whose predicate, if it has one, is worth `value`. -/
def evaluate (value : Bool) : Literal → Bool
  | constant c => c
  | predicate _ negated => value != negated

def holds (assignment : Assignment) (l : Literal) : Bool :=
  l.evaluate (match l.predicate? with | some id => assignment id | none => false)

def text : Literal → String
  | constant value => if value then "true" else "false"
  | predicate id negated => (if negated then "!p" else "p") ++ toString id

/-- The literal that a text stands for; exclamation marks in front of it negate it. -/
def ofChars? : List Char → Option Literal
  | '!' :: rest => (ofChars? rest).map negate
  | 'p' :: digits => (String.ofList digits).toNat?.map ofPredicate
  | word =>
    if word = "true".toList then some (constant true)
    else if word = "false".toList then some (constant false)
    else none

def ofText? (text : String) : Option Literal := ofChars? text.toList

end Literal
end PolicyDecision
