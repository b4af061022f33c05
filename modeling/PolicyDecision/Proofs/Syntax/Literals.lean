import PolicyDecision.Proofs.Syntax.Signature

/-!
# PolicyDecision.Proofs.Syntax.Literals

The JSON literals of an expression.

* `Expression.literals`: all of them, also those of steps, filters and arguments.
* `Json.OneOrder`: a vocabulary in which the fields determine their order.
* `Expression.eq_of_sortLiterals_eq`: expressions over such a vocabulary that differ in key order only are the
  same.
-/

namespace PolicyDecision

mutual
/-- The JSON literals of an expression, from left to right. -/
def Expression.literals : Expression → List Json
  | .basic head steps tail => head.literals ++ (stepsLiterals steps ++ tailLiterals tail)
  | .unary _ operand => operand.literals
  | .binary _ left right => left.literals ++ right.literals

def Head.literals : Head → List Json
  | .group inner => inner.literals
  | .value literal => [literal]
  | .array items => expressionsLiterals items
  | .object fields => pairsLiterals fields
  | .function _ arguments => expressionsLiterals arguments
  | .undefined | .identifier _ | .relative => []

def tailLiterals : Option Tail → List Json
  | none => []
  | some tail => tail.literals

def Tail.literals : Tail → List Json
  | .filter filter => filter.literals
  | .subtemplate template => template.literals

def expressionsLiterals : List Expression → List Json
  | [] => []
  | e :: es => e.literals ++ expressionsLiterals es

def pairsLiterals : List (String × Expression) → List Json
  | [] => []
  | (_, e) :: rest => e.literals ++ pairsLiterals rest

def stepsLiterals : List Step → List Json
  | [] => []
  | step :: rest => step.literals ++ stepsLiterals rest

def Step.literals : Step → List Json
  | .condition condition => condition.literals
  | .attributeFinder _ arguments _ => expressionsLiterals arguments
  | .key _ | .index _ | .wildcard | .slice _ _ _ | .recursiveKey _ | .recursiveIndex _ => []

def Filter.literals : Filter → List Json
  | .simple _ arguments _ => expressionsLiterals arguments
  | .extended statements => filterStatementsLiterals statements

def filterStatementsLiterals : List FilterStatement → List Json
  | [] => []
  | s :: rest => s.literals ++ filterStatementsLiterals rest

def FilterStatement.literals : FilterStatement → List Json
  | .mk target _ arguments _ => stepsLiterals target ++ expressionsLiterals arguments
end

/-- No two values of the vocabulary differ only in the order of fields. -/
def Json.OneOrder (words : Json → Prop) : Prop :=
  ∀ v w, words v → words w → v.sortKeys = w.sortKeys → v = w

section OneOrder

set_option linter.unusedSectionVars false

variable {words : Json → Prop} (hwords : Json.OneOrder words)

include hwords

mutual
theorem Expression.eq_of_sortLiterals_eq : ∀ e e' : Expression, (∀ v ∈ e.literals, words v) →
    (∀ v ∈ e'.literals, words v) → e.sortLiterals = e'.sortLiterals → e = e'
  | .basic head steps tail, e', h, h', heq => by
    cases e' with
    | basic head' steps' tail' =>
      simp only [Expression.literals, List.forall_mem_append] at h h'
      simp only [Expression.sortLiterals, Expression.basic.injEq] at heq
      have hhead := head.eq_of_sortLiterals_eq head' h.1 h'.1 heq.1
      have hsteps := stepsSorted_injective steps steps' h.2.1 h'.2.1 heq.2.1
      have htail := tailSorted_injective tail tail' h.2.2 h'.2.2 heq.2.2
      rw [hhead, hsteps, htail]
    | _ => simp [Expression.sortLiterals] at heq
  | .unary op operand, e', h, h', heq => by
    cases e' with
    | unary op' operand' =>
      simp only [Expression.sortLiterals, Expression.unary.injEq] at heq
      have hoperand := operand.eq_of_sortLiterals_eq operand' h h' heq.2
      rw [heq.1, hoperand]
    | _ => simp [Expression.sortLiterals] at heq
  | .binary op left right, e', h, h', heq => by
    cases e' with
    | binary op' left' right' =>
      simp only [Expression.literals, List.forall_mem_append] at h h'
      simp only [Expression.sortLiterals, Expression.binary.injEq] at heq
      have hleft := left.eq_of_sortLiterals_eq left' h.1 h'.1 heq.2.1
      have hright := right.eq_of_sortLiterals_eq right' h.2 h'.2 heq.2.2
      rw [heq.1, hleft, hright]
    | _ => simp [Expression.sortLiterals] at heq

theorem Head.eq_of_sortLiterals_eq : ∀ head head' : Head, (∀ v ∈ head.literals, words v) →
    (∀ v ∈ head'.literals, words v) → head.sortLiterals = head'.sortLiterals → head = head'
  | .group inner, head', h, h', heq => by
    cases head' with
    | group inner' =>
      simp only [Head.sortLiterals, Head.group.injEq] at heq
      rw [inner.eq_of_sortLiterals_eq inner' h h' heq]
    | _ => simp [Head.sortLiterals] at heq
  | .value literal, head', h, h', heq => by
    cases head' with
    | value literal' =>
      simp only [Head.sortLiterals, Head.value.injEq] at heq
      rw [hwords literal literal' (h literal List.mem_cons_self) (h' literal' List.mem_cons_self) heq]
    | _ => simp [Head.sortLiterals] at heq
  | .array items, head', h, h', heq => by
    cases head' with
    | array items' =>
      simp only [Head.sortLiterals, Head.array.injEq] at heq
      rw [expressionsSorted_injective items items' h h' heq]
    | _ => simp [Head.sortLiterals] at heq
  | .object fields, head', h, h', heq => by
    cases head' with
    | object fields' =>
      simp only [Head.sortLiterals, Head.object.injEq] at heq
      rw [pairsSorted_injective fields fields' h h' heq]
    | _ => simp [Head.sortLiterals] at heq
  | .function name arguments, head', h, h', heq => by
    cases head' with
    | function name' arguments' =>
      simp only [Head.sortLiterals, Head.function.injEq] at heq
      rw [heq.1, expressionsSorted_injective arguments arguments' h h' heq.2]
    | _ => simp [Head.sortLiterals] at heq
  | .undefined, head', _, _, heq => by cases head' <;> simp_all [Head.sortLiterals]
  | .identifier name, head', _, _, heq => by cases head' <;> simp_all [Head.sortLiterals]
  | .relative, head', _, _, heq => by cases head' <;> simp_all [Head.sortLiterals]

theorem tailSorted_injective : ∀ tail tail' : Option Tail, (∀ v ∈ tailLiterals tail, words v) →
    (∀ v ∈ tailLiterals tail', words v) → tailSorted tail = tailSorted tail' → tail = tail'
  | none, tail', _, _, heq => by cases tail' <;> simp_all [tailSorted]
  | some tail, tail', h, h', heq => by
    cases tail' with
    | none => simp [tailSorted] at heq
    | some tail' =>
      simp only [tailSorted, Option.some.injEq] at heq
      rw [tail.eq_of_sortLiterals_eq tail' h h' heq]

theorem Tail.eq_of_sortLiterals_eq : ∀ tail tail' : Tail, (∀ v ∈ tail.literals, words v) →
    (∀ v ∈ tail'.literals, words v) → tail.sortLiterals = tail'.sortLiterals → tail = tail'
  | .filter filter, tail', h, h', heq => by
    cases tail' with
    | filter filter' =>
      simp only [Tail.sortLiterals, Tail.filter.injEq] at heq
      rw [filter.eq_of_sortLiterals_eq filter' h h' heq]
    | subtemplate _ => simp [Tail.sortLiterals] at heq
  | .subtemplate template, tail', h, h', heq => by
    cases tail' with
    | filter _ => simp [Tail.sortLiterals] at heq
    | subtemplate template' =>
      simp only [Tail.sortLiterals, Tail.subtemplate.injEq] at heq
      rw [template.eq_of_sortLiterals_eq template' h h' heq]

theorem Filter.eq_of_sortLiterals_eq : ∀ filter filter' : Filter,
    (∀ v ∈ filter.literals, words v) → (∀ v ∈ filter'.literals, words v) →
    filter.sortLiterals = filter'.sortLiterals → filter = filter'
  | .simple function arguments each, filter', h, h', heq => by
    cases filter' with
    | simple function' arguments' each' =>
      simp only [Filter.sortLiterals, Filter.simple.injEq] at heq
      rw [heq.1, expressionsSorted_injective arguments arguments' h h' heq.2.1, heq.2.2]
    | extended _ => simp [Filter.sortLiterals] at heq
  | .extended statements, filter', h, h', heq => by
    cases filter' with
    | simple _ _ _ => simp [Filter.sortLiterals] at heq
    | extended statements' =>
      simp only [Filter.sortLiterals, Filter.extended.injEq] at heq
      rw [filterStatementsSorted_injective statements statements' h h' heq]

theorem filterStatementsSorted_injective : ∀ statements statements' : List FilterStatement,
    (∀ v ∈ filterStatementsLiterals statements, words v) →
    (∀ v ∈ filterStatementsLiterals statements', words v) →
    filterStatementsSorted statements = filterStatementsSorted statements' →
    statements = statements'
  | [], statements', _, _, heq => by cases statements' <;> simp_all [filterStatementsSorted]
  | s :: rest, statements', h, h', heq => by
    cases statements' with
    | nil => simp [filterStatementsSorted] at heq
    | cons s' rest' =>
      simp only [filterStatementsLiterals, List.forall_mem_append] at h h'
      simp only [filterStatementsSorted, List.cons.injEq] at heq
      rw [s.eq_of_sortLiterals_eq s' h.1 h'.1 heq.1,
        filterStatementsSorted_injective rest rest' h.2 h'.2 heq.2]

theorem FilterStatement.eq_of_sortLiterals_eq : ∀ statement statement' : FilterStatement,
    (∀ v ∈ statement.literals, words v) → (∀ v ∈ statement'.literals, words v) →
    statement.sortLiterals = statement'.sortLiterals → statement = statement'
  | .mk target function arguments each, .mk target' function' arguments' each', h, h', heq => by
    simp only [FilterStatement.literals, List.forall_mem_append] at h h'
    simp only [FilterStatement.sortLiterals, FilterStatement.mk.injEq] at heq
    rw [stepsSorted_injective target target' h.1 h'.1 heq.1, heq.2.1,
      expressionsSorted_injective arguments arguments' h.2 h'.2 heq.2.2.1, heq.2.2.2]

theorem expressionsSorted_injective : ∀ es es' : List Expression,
    (∀ v ∈ expressionsLiterals es, words v) → (∀ v ∈ expressionsLiterals es', words v) →
    expressionsSorted es = expressionsSorted es' → es = es'
  | [], es', _, _, heq => by cases es' <;> simp_all [expressionsSorted]
  | e :: es, es', h, h', heq => by
    cases es' with
    | nil => simp [expressionsSorted] at heq
    | cons e' es' =>
      simp only [expressionsLiterals, List.forall_mem_append] at h h'
      simp only [expressionsSorted, List.cons.injEq] at heq
      rw [e.eq_of_sortLiterals_eq e' h.1 h'.1 heq.1,
        expressionsSorted_injective es es' h.2 h'.2 heq.2]

theorem pairsSorted_injective : ∀ fields fields' : List (String × Expression),
    (∀ v ∈ pairsLiterals fields, words v) → (∀ v ∈ pairsLiterals fields', words v) →
    pairsSorted fields = pairsSorted fields' → fields = fields'
  | [], fields', _, _, heq => by cases fields' <;> simp_all [pairsSorted]
  | (key, e) :: rest, fields', h, h', heq => by
    cases fields' with
    | nil => simp [pairsSorted] at heq
    | cons b rest' =>
      simp only [pairsLiterals, List.forall_mem_append] at h h'
      simp only [pairsSorted, List.cons.injEq, Prod.mk.injEq] at heq
      rw [e.eq_of_sortLiterals_eq b.2 h.1 h'.1 heq.1.2, heq.1.1,
        pairsSorted_injective rest rest' h.2 h'.2 heq.2]

theorem stepsSorted_injective : ∀ steps steps' : List Step,
    (∀ v ∈ stepsLiterals steps, words v) → (∀ v ∈ stepsLiterals steps', words v) →
    stepsSorted steps = stepsSorted steps' → steps = steps'
  | [], steps', _, _, heq => by cases steps' <;> simp_all [stepsSorted]
  | step :: rest, steps', h, h', heq => by
    cases steps' with
    | nil => simp [stepsSorted] at heq
    | cons step' rest' =>
      simp only [stepsLiterals, List.forall_mem_append] at h h'
      simp only [stepsSorted, List.cons.injEq] at heq
      rw [step.eq_of_sortLiterals_eq step' h.1 h'.1 heq.1,
        stepsSorted_injective rest rest' h.2 h'.2 heq.2]

theorem Step.eq_of_sortLiterals_eq : ∀ step step' : Step, (∀ v ∈ step.literals, words v) →
    (∀ v ∈ step'.literals, words v) → step.sortLiterals = step'.sortLiterals → step = step'
  | .condition condition, step', h, h', heq => by
    cases step' with
    | condition condition' =>
      simp only [Step.sortLiterals, Step.condition.injEq] at heq
      rw [condition.eq_of_sortLiterals_eq condition' h h' heq]
    | _ => simp [Step.sortLiterals] at heq
  | .attributeFinder name arguments head, step', h, h', heq => by
    cases step' with
    | attributeFinder name' arguments' head' =>
      simp only [Step.sortLiterals, Step.attributeFinder.injEq] at heq
      rw [heq.1, expressionsSorted_injective arguments arguments' h h' heq.2.1, heq.2.2]
    | _ => simp [Step.sortLiterals] at heq
  | .key name, step', _, _, heq => by cases step' <;> simp_all [Step.sortLiterals]
  | .index index, step', _, _, heq => by cases step' <;> simp_all [Step.sortLiterals]
  | .wildcard, step', _, _, heq => by cases step' <;> simp_all [Step.sortLiterals]
  | .slice start stop stride, step', _, _, heq => by cases step' <;> simp_all [Step.sortLiterals]
  | .recursiveKey name, step', _, _, heq => by cases step' <;> simp_all [Step.sortLiterals]
  | .recursiveIndex index, step', _, _, heq => by cases step' <;> simp_all [Step.sortLiterals]
end

end OneOrder
end PolicyDecision
