import Mathlib.Data.String.Basic
import PolicyDecision.Index.PredicateTable
import PolicyDecision.Proofs.Json.Text
import PolicyDecision.Syntax.Decoding

/-!
# PolicyDecision.Proofs.Syntax.Signature

What the signature of an expression determines.

* `Expression.sortLiterals`: the same expression with the fields of the objects in its JSON literals in key
  order.
* `Expression.readExpression_sortKeys`: reading the JSON form with all fields in key order gives it back.
* `Expression.signature_eq_iff`: two expressions have one signature if and only if they differ in the key
  order of their literals only.
-/

namespace PolicyDecision

mutual
/-- The same expression with the fields of the objects in its JSON literals in key order. -/
def Expression.sortLiterals : Expression → Expression
  | .basic head steps tail => .basic head.sortLiterals (stepsSorted steps) (tailSorted tail)
  | .unary op operand => .unary op operand.sortLiterals
  | .binary op left right => .binary op left.sortLiterals right.sortLiterals

def Head.sortLiterals : Head → Head
  | .group inner => .group inner.sortLiterals
  | .value literal => .value literal.sortKeys
  | .undefined => .undefined
  | .array items => .array (expressionsSorted items)
  | .object fields => .object (pairsSorted fields)
  | .function name arguments => .function name (expressionsSorted arguments)
  | .identifier name => .identifier name
  | .relative => .relative

def tailSorted : Option Tail → Option Tail
  | none => none
  | some tail => some tail.sortLiterals

def Tail.sortLiterals : Tail → Tail
  | .filter filter => .filter filter.sortLiterals
  | .subtemplate template => .subtemplate template.sortLiterals

def expressionsSorted : List Expression → List Expression
  | [] => []
  | e :: es => e.sortLiterals :: expressionsSorted es

def pairsSorted : List (String × Expression) → List (String × Expression)
  | [] => []
  | (key, e) :: rest => (key, e.sortLiterals) :: pairsSorted rest

def stepsSorted : List Step → List Step
  | [] => []
  | step :: rest => step.sortLiterals :: stepsSorted rest

def Step.sortLiterals : Step → Step
  | .condition condition => .condition condition.sortLiterals
  | .attributeFinder name arguments head =>
    .attributeFinder name (expressionsSorted arguments) head
  | .key name => .key name
  | .index index => .index index
  | .wildcard => .wildcard
  | .slice start stop stride => .slice start stop stride
  | .recursiveKey name => .recursiveKey name
  | .recursiveIndex index => .recursiveIndex index

def Filter.sortLiterals : Filter → Filter
  | .simple function arguments each => .simple function (expressionsSorted arguments) each
  | .extended statements => .extended (filterStatementsSorted statements)

def filterStatementsSorted : List FilterStatement → List FilterStatement
  | [] => []
  | s :: rest => s.sortLiterals :: filterStatementsSorted rest

def FilterStatement.sortLiterals : FilterStatement → FilterStatement
  | .mk target function arguments each =>
    .mk (stepsSorted target) function (expressionsSorted arguments) each
end

/-! ## Sorting twice -/

theorem SortedTable.place_of_forall_lt {α : Type} {key : String} {value : α}
    {l : List (String × α)} (h : ∀ b ∈ l, key < b.1) : place key value l = (key, value) :: l := by
  cases l with
  | nil => rfl
  | cons b rest =>
    rw [place, if_pos (h b List.mem_cons_self)]

namespace Json

theorem sortKeysFields_ascending (fields : List (String × Json)) :
    (sortKeysFields fields).Pairwise fun a b => a.1 < b.1 := by
  induction fields with
  | nil => exact .nil
  | cons b rest ih => exact SortedTable.place_ascending ih

/-- Ascending fields whose values are sorted stay as they are. -/
theorem sortKeysFields_eq_self {fields : List (String × Json)}
    (hascending : fields.Pairwise fun a b => a.1 < b.1)
    (hvalues : ∀ b ∈ fields, b.2.sortKeys = b.2) : sortKeysFields fields = fields := by
  induction fields with
  | nil => rfl
  | cons b rest ih =>
    obtain ⟨hlt, hrest⟩ := List.pairwise_cons.1 hascending
    rw [sortKeysFields, ih hrest fun b' hb' => hvalues b' (List.mem_cons_of_mem b hb'),
      hvalues b List.mem_cons_self, SortedTable.place_of_forall_lt hlt]

mutual
@[simp]
theorem sortKeys_sortKeys : ∀ j : Json, j.sortKeys.sortKeys = j.sortKeys
  | .null => rfl
  | .bool b => rfl
  | .number n => rfl
  | .string s => rfl
  | .array items => by
    rw [sortKeys, sortKeys, sortKeysItems_sortKeysItems items]
  | .object fields => by
    rw [sortKeys, sortKeys, sortKeysFields_eq_self (sortKeysFields_ascending fields)
      (sortKeys_of_mem_sortKeysFields fields)]

theorem sortKeysItems_sortKeysItems : ∀ items : List Json,
    sortKeysItems (sortKeysItems items) = sortKeysItems items
  | [] => rfl
  | j :: js => by
    rw [sortKeysItems, sortKeysItems, sortKeys_sortKeys j, sortKeysItems_sortKeysItems js]

theorem sortKeys_of_mem_sortKeysFields : ∀ fields : List (String × Json),
    ∀ b ∈ sortKeysFields fields, b.2.sortKeys = b.2
  | [], _, hb => by cases hb
  | (k, v) :: rest, b, hb => by
    rcases SortedTable.mem_place hb with rfl | hb
    · exact sortKeys_sortKeys v
    · exact sortKeys_of_mem_sortKeysFields rest b hb
end

end Json

/-! ## Plain values -/

namespace Json

@[simp]
theorem sortKeys_form (name : String) (content : Json) :
    (form name content).sortKeys = .object [(name, content.sortKeys)] := rfl

@[simp]
theorem sortKeys_wordJson (n : Int64) : (wordJson n).sortKeys = wordJson n := by
  unfold wordJson ofInt
  rw [sortKeys]

@[simp]
theorem sortKeys_optionalWordJson (n : Option Int64) :
    (optionalWordJson n).sortKeys = optionalWordJson n := by
  cases n with
  | none => rfl
  | some n => exact sortKeys_wordJson n

end Json

@[simp]
theorem readWord_wordJson (n : Int64) : readWord (wordJson n) = some n := by
  have hle := n.le_toInt
  have hlt := n.toInt_lt
  unfold wordJson Json.ofInt Number.ofInt
  rw [dif_pos (by omega), readWord, Number.int64?, if_pos (by omega), Option.map_some,
    Int64.ofInt_toInt]

@[simp]
theorem readOptionalWord_optionalWordJson (n : Option Int64) :
    readOptionalWord (optionalWordJson n) = some n := by
  cases n with
  | none => rfl
  | some n =>
    show (readWord (wordJson n)).map some = _
    rw [readWord_wordJson, Option.map_some]

@[simp]
theorem UnaryOperator.ofJson?_name (op : UnaryOperator) :
    UnaryOperator.ofJson? (.string op.name) = some op := by
  cases op <;> rfl

@[simp]
theorem BinaryOperator.ofJson?_name (op : BinaryOperator) :
    BinaryOperator.ofJson? (.string op.name) = some op := by
  cases op <;> rfl

/-! ## Reading sorted JSON forms -/

mutual
theorem Expression.readExpression_sortKeys :
    ∀ e : Expression, readExpression e.toJson.sortKeys = some e.sortLiterals
  | .basic head steps tail => by
    have hhead := head.readHead_sortKeys
    have hsteps := readStepItems_sortKeys steps
    cases tail with
    | none =>
      simp [Expression.toJson, Expression.sortLiterals, tailFields, tailSorted, Json.sortKeys,
        Json.sortKeysFields, SortedTable.place, readExpression, readBasicFields, readSteps, hhead,
        hsteps, BasicFields.finish, -String.lt_iff_ltb]
    | some tail =>
      have htail := tail.readTail_sortKeys
      simp [Expression.toJson, Expression.sortLiterals, tailFields, tailSorted, Json.sortKeys,
        Json.sortKeysFields, SortedTable.place, readExpression, readBasicFields, readSteps, hhead,
        hsteps, htail, BasicFields.finish, -String.lt_iff_ltb]
  | .unary op operand => by
    have hoperand := operand.readExpression_sortKeys
    simp [Expression.toJson, Expression.sortLiterals, Json.sortKeys, Json.sortKeysFields,
      SortedTable.place, readExpression, readOperatorFields, hoperand, OperatorFields.unary?,
      -String.lt_iff_ltb]
  | .binary op left right => by
    have hleft := left.readExpression_sortKeys
    have hright := right.readExpression_sortKeys
    simp [Expression.toJson, Expression.sortLiterals, Json.sortKeys, Json.sortKeysFields,
      SortedTable.place, readExpression, readOperatorFields, hleft, hright, OperatorFields.binary?,
      -String.lt_iff_ltb]

theorem Head.readHead_sortKeys : ∀ head : Head, readHead head.toJson.sortKeys = some head.sortLiterals
  | .group inner => by
    have hinner := inner.readExpression_sortKeys
    simp [Head.toJson, Head.sortLiterals, readHead, hinner]
  | .value literal => by simp [Head.toJson, Head.sortLiterals, readHead]
  | .undefined => rfl
  | .array items => by
    have hitems := readExpressions_sortKeys items
    simp [Head.toJson, Head.sortLiterals, Json.sortKeys, readHead, hitems]
  | .object fields => by
    have hfields := readPairs_sortKeys fields
    simp [Head.toJson, Head.sortLiterals, Json.sortKeys, readHead, hfields]
  | .function name arguments => by
    have harguments := readExpressions_sortKeys arguments
    simp [Head.toJson, Head.sortLiterals, Json.sortKeys, Json.sortKeysFields, SortedTable.place,
      readHead, readCallFields, readArguments, readText, harguments, CallFields.function?,
      -String.lt_iff_ltb]
  | .identifier name => rfl
  | .relative => rfl

theorem Tail.readTail_sortKeys : ∀ tail : Tail,
    readTail tail.toJson.sortKeys = some (some tail.sortLiterals)
  | .filter filter => by
    have hfilter := filter.readFilter_sortKeys
    simp [Tail.toJson, Tail.sortLiterals, readTail, hfilter]
  | .subtemplate template => by
    have htemplate := template.readExpression_sortKeys
    simp [Tail.toJson, Tail.sortLiterals, readTail, htemplate]

theorem Filter.readFilter_sortKeys : ∀ filter : Filter,
    readFilter filter.toJson.sortKeys = some filter.sortLiterals
  | .simple function arguments each => by
    have harguments := readExpressions_sortKeys arguments
    simp [Filter.toJson, Filter.sortLiterals, Json.sortKeys, Json.sortKeysFields, SortedTable.place,
      readFilter, readCallFields, readArguments, readText, readBool, harguments, CallFields.simple?,
      -String.lt_iff_ltb]
  | .extended statements => by
    have hstatements := readFilterStatements_sortKeys statements
    simp [Filter.toJson, Filter.sortLiterals, Json.sortKeys, readFilter, hstatements]

theorem readFilterStatements_sortKeys : ∀ statements : List FilterStatement,
    readFilterStatements (Json.sortKeysItems (filterStatementsJson statements)) =
      some (filterStatementsSorted statements)
  | [] => rfl
  | s :: rest => by
    have hs := s.readFilterStatement_sortKeys
    have hrest := readFilterStatements_sortKeys rest
    simp [filterStatementsJson, filterStatementsSorted, Json.sortKeysItems, readFilterStatements, hs,
      hrest]

theorem FilterStatement.readFilterStatement_sortKeys : ∀ statement : FilterStatement,
    readFilterStatement statement.toJson.sortKeys = some statement.sortLiterals
  | .mk target function arguments each => by
    have htarget := readStepItems_sortKeys target
    have harguments := readExpressions_sortKeys arguments
    simp [FilterStatement.toJson, FilterStatement.sortLiterals, Json.sortKeys, Json.sortKeysFields,
      SortedTable.place, readFilterStatement, readStatementFields, readSteps, readArguments,
      readText, readBool, htarget, harguments, CallFields.statement?, -String.lt_iff_ltb]

theorem readExpressions_sortKeys : ∀ es : List Expression,
    readExpressions (Json.sortKeysItems (expressionsJson es)) = some (expressionsSorted es)
  | [] => rfl
  | e :: es => by
    have he := e.readExpression_sortKeys
    have hes := readExpressions_sortKeys es
    simp [expressionsJson, expressionsSorted, Json.sortKeysItems, readExpressions, he, hes]

theorem readPairs_sortKeys : ∀ fields : List (String × Expression),
    readPairs (Json.sortKeysItems (pairsJson fields)) = some (pairsSorted fields)
  | [] => rfl
  | (key, e) :: rest => by
    have he := e.readExpression_sortKeys
    have hrest := readPairs_sortKeys rest
    simp [pairsJson, pairsSorted, Json.sortKeysItems, Json.sortKeys, readPairs, he, hrest]

theorem readStepItems_sortKeys : ∀ steps : List Step,
    readStepItems (Json.sortKeysItems (stepsJson steps)) = some (stepsSorted steps)
  | [] => rfl
  | step :: rest => by
    have hstep := step.readStep_sortKeys
    have hrest := readStepItems_sortKeys rest
    simp [stepsJson, stepsSorted, Json.sortKeysItems, readStepItems, hstep, hrest]

theorem Step.readStep_sortKeys : ∀ step : Step, readStep step.toJson.sortKeys = some step.sortLiterals
  | .key name => rfl
  | .index index => by simp [Step.toJson, Step.sortLiterals, readStep]
  | .wildcard => rfl
  | .slice start stop stride => by
    simp [Step.toJson, Step.sortLiterals, Json.sortKeys, Json.sortKeysFields, SortedTable.place,
      readStep, readSliceFields, -String.lt_iff_ltb]
  | .recursiveKey name => rfl
  | .recursiveIndex index => by simp [Step.toJson, Step.sortLiterals, readStep]
  | .condition condition => by
    have hcondition := condition.readExpression_sortKeys
    simp [Step.toJson, Step.sortLiterals, readStep, hcondition]
  | .attributeFinder name arguments head => by
    have harguments := readExpressions_sortKeys arguments
    simp [Step.toJson, Step.sortLiterals, Json.sortKeys, Json.sortKeysFields, SortedTable.place,
      readStep, readCallFields, readArguments, readText, readBool, harguments, CallFields.finder?,
      -String.lt_iff_ltb]
end

mutual
theorem Expression.sortKeys_toJson_sortLiterals :
    ∀ e : Expression, e.sortLiterals.toJson.sortKeys = e.toJson.sortKeys
  | .basic head steps tail => by
    have hhead := head.sortKeys_toJson_sortLiterals
    have hsteps := sortKeysItems_stepsSorted steps
    cases tail with
    | none =>
      simp [Expression.toJson, Expression.sortLiterals, tailFields, tailSorted, Json.sortKeys,
        Json.sortKeysFields, hhead, hsteps]
    | some tail =>
      have htail := tail.sortKeys_toJson_sortLiterals
      simp [Expression.toJson, Expression.sortLiterals, tailFields, tailSorted, Json.sortKeys,
        Json.sortKeysFields, hhead, hsteps, htail]
  | .unary op operand => by
    have hoperand := operand.sortKeys_toJson_sortLiterals
    simp [Expression.toJson, Expression.sortLiterals, Json.sortKeys, Json.sortKeysFields, hoperand]
  | .binary op left right => by
    have hleft := left.sortKeys_toJson_sortLiterals
    have hright := right.sortKeys_toJson_sortLiterals
    simp [Expression.toJson, Expression.sortLiterals, Json.sortKeys, Json.sortKeysFields, hleft,
      hright]

theorem Head.sortKeys_toJson_sortLiterals :
    ∀ head : Head, head.sortLiterals.toJson.sortKeys = head.toJson.sortKeys
  | .group inner => by
    have hinner := inner.sortKeys_toJson_sortLiterals
    simp [Head.toJson, Head.sortLiterals, hinner]
  | .value literal => by simp [Head.toJson, Head.sortLiterals]
  | .undefined => rfl
  | .array items => by
    have hitems := sortKeysItems_expressionsSorted items
    simp [Head.toJson, Head.sortLiterals, Json.sortKeys, hitems]
  | .object fields => by
    have hfields := sortKeysItems_pairsSorted fields
    simp [Head.toJson, Head.sortLiterals, Json.sortKeys, hfields]
  | .function name arguments => by
    have harguments := sortKeysItems_expressionsSorted arguments
    simp [Head.toJson, Head.sortLiterals, Json.sortKeys, Json.sortKeysFields, harguments]
  | .identifier name => rfl
  | .relative => rfl

theorem Tail.sortKeys_toJson_sortLiterals :
    ∀ tail : Tail, tail.sortLiterals.toJson.sortKeys = tail.toJson.sortKeys
  | .filter filter => by
    have hfilter := filter.sortKeys_toJson_sortLiterals
    simp [Tail.toJson, Tail.sortLiterals, hfilter]
  | .subtemplate template => by
    have htemplate := template.sortKeys_toJson_sortLiterals
    simp [Tail.toJson, Tail.sortLiterals, htemplate]

theorem Filter.sortKeys_toJson_sortLiterals :
    ∀ filter : Filter, filter.sortLiterals.toJson.sortKeys = filter.toJson.sortKeys
  | .simple function arguments each => by
    have harguments := sortKeysItems_expressionsSorted arguments
    simp [Filter.toJson, Filter.sortLiterals, Json.sortKeys, Json.sortKeysFields, harguments]
  | .extended statements => by
    have hstatements := sortKeysItems_filterStatementsSorted statements
    simp [Filter.toJson, Filter.sortLiterals, Json.sortKeys, hstatements]

theorem sortKeysItems_filterStatementsSorted : ∀ statements : List FilterStatement,
    Json.sortKeysItems (filterStatementsJson (filterStatementsSorted statements)) =
      Json.sortKeysItems (filterStatementsJson statements)
  | [] => rfl
  | s :: rest => by
    have hs := s.sortKeys_toJson_sortLiterals
    have hrest := sortKeysItems_filterStatementsSorted rest
    simp [filterStatementsJson, filterStatementsSorted, Json.sortKeysItems, hs, hrest]

theorem FilterStatement.sortKeys_toJson_sortLiterals :
    ∀ statement : FilterStatement, statement.sortLiterals.toJson.sortKeys = statement.toJson.sortKeys
  | .mk target function arguments each => by
    have htarget := sortKeysItems_stepsSorted target
    have harguments := sortKeysItems_expressionsSorted arguments
    simp [FilterStatement.toJson, FilterStatement.sortLiterals, Json.sortKeys, Json.sortKeysFields,
      htarget, harguments]

theorem sortKeysItems_expressionsSorted : ∀ es : List Expression,
    Json.sortKeysItems (expressionsJson (expressionsSorted es)) =
      Json.sortKeysItems (expressionsJson es)
  | [] => rfl
  | e :: es => by
    have he := e.sortKeys_toJson_sortLiterals
    have hes := sortKeysItems_expressionsSorted es
    simp [expressionsJson, expressionsSorted, Json.sortKeysItems, he, hes]

theorem sortKeysItems_pairsSorted : ∀ fields : List (String × Expression),
    Json.sortKeysItems (pairsJson (pairsSorted fields)) = Json.sortKeysItems (pairsJson fields)
  | [] => rfl
  | (key, e) :: rest => by
    have he := e.sortKeys_toJson_sortLiterals
    have hrest := sortKeysItems_pairsSorted rest
    simp [pairsJson, pairsSorted, Json.sortKeysItems, Json.sortKeys, he, hrest]

theorem sortKeysItems_stepsSorted : ∀ steps : List Step,
    Json.sortKeysItems (stepsJson (stepsSorted steps)) = Json.sortKeysItems (stepsJson steps)
  | [] => rfl
  | step :: rest => by
    have hstep := step.sortKeys_toJson_sortLiterals
    have hrest := sortKeysItems_stepsSorted rest
    simp [stepsJson, stepsSorted, Json.sortKeysItems, hstep, hrest]

theorem Step.sortKeys_toJson_sortLiterals :
    ∀ step : Step, step.sortLiterals.toJson.sortKeys = step.toJson.sortKeys
  | .key name => rfl
  | .index index => rfl
  | .wildcard => rfl
  | .slice start stop stride => rfl
  | .recursiveKey name => rfl
  | .recursiveIndex index => rfl
  | .condition condition => by
    have hcondition := condition.sortKeys_toJson_sortLiterals
    simp [Step.toJson, Step.sortLiterals, hcondition]
  | .attributeFinder name arguments head => by
    have harguments := sortKeysItems_expressionsSorted arguments
    simp [Step.toJson, Step.sortLiterals, Json.sortKeys, Json.sortKeysFields, harguments]
end

/-- Expressions have one signature if and only if they differ in the key order of their literals
only. -/
theorem Expression.signature_eq_iff {e e' : Expression} :
    e.signature = e'.signature ↔ e.sortLiterals = e'.sortLiterals := by
  constructor
  · intro h
    have hread := e.readExpression_sortKeys
    rw [Json.text_injective h, e'.readExpression_sortKeys] at hread
    exact (Option.some.inj hread).symm
  · intro h
    unfold Expression.signature
    rw [← e.sortKeys_toJson_sortLiterals, h, e'.sortKeys_toJson_sortLiterals]

end PolicyDecision
