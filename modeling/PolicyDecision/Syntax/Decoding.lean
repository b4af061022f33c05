import PolicyDecision.Syntax.Encoding

/-!
# PolicyDecision.Syntax.Decoding

Reading expressions and documents from their JSON form.

A record is read from an object, where fields that are not known are ignored and a field with a
default may be missing, or from the array of its fields in order, where only fields at the end may
be missing. The content of a form with named fields must be an object.
-/

namespace PolicyDecision

/-! ## Plain values -/

def readText : Json → Option String
  | .string s => some s
  | _ => none

def readBool : Json → Option Bool
  | .bool b => some b
  | _ => none

def readWord : Json → Option Int64
  | .number n => n.int64?.map Int64.ofInt
  | _ => none

def readOptionalWord : Json → Option (Option Int64)
  | .null => some none
  | j => (readWord j).map some

/-- The name of a form without content, written as a string or with the content null. -/
def plainForm? : Json → Option String
  | .string name => some name
  | .object [(name, .null)] => some name
  | _ => none

def UnaryOperator.ofJson? (j : Json) : Option UnaryOperator :=
  match plainForm? j with
  | some "not" => some .not
  | some "negate" => some .negate
  | _ => none

def BinaryOperator.ofJson? (j : Json) : Option BinaryOperator :=
  match plainForm? j with
  | some "and" => some .and
  | some "or" => some .or
  | some "eager_and" => some .eagerAnd
  | some "eager_or" => some .eagerOr
  | some "equals" => some .equals
  | some "not_equals" => some .notEquals
  | some "less" => some .less
  | some "less_equals" => some .lessEquals
  | some "greater" => some .greater
  | some "greater_equals" => some .greaterEquals
  | some "element_of" => some .elementOf
  | some "regex" => some .regex
  | some "plus" => some .plus
  | some "minus" => some .minus
  | some "multiply" => some .multiply
  | some "divide" => some .divide
  | some "modulo" => some .modulo
  | _ => none

def Entitlement.ofJson? (j : Json) : Option Entitlement :=
  match plainForm? j with
  | some "permit" => some .permit
  | some "deny" => some .deny
  | _ => none

/-! ## Fields read so far -/

structure BasicFields where
  head : Option Head := none
  steps : List Step := []
  tail : Option Tail := none

def BasicFields.finish (f : BasicFields) : Option Expression :=
  f.head.map fun head => .basic head f.steps f.tail

/-- Operator and operands of a unary or binary form. -/
structure OperatorFields where
  op : Option Json := none
  operand : Option Expression := none
  left : Option Expression := none
  right : Option Expression := none

def OperatorFields.unary? (f : OperatorFields) : Option Expression := do
  return .unary (← UnaryOperator.ofJson? (← f.op)) (← f.operand)

def OperatorFields.binary? (f : OperatorFields) : Option Expression := do
  return .binary (← BinaryOperator.ofJson? (← f.op)) (← f.left) (← f.right)

/-- A name with arguments and a flag: functions, attribute finders and filters. -/
structure CallFields where
  name : Option String := none
  arguments : List Expression := []
  flag : Bool := false
  target : List Step := []

def CallFields.function? (f : CallFields) : Option Head :=
  f.name.map fun name => .function name f.arguments

def CallFields.finder? (f : CallFields) : Option Step :=
  f.name.map fun name => .attributeFinder name f.arguments f.flag

def CallFields.simple? (f : CallFields) : Option Filter :=
  f.name.map fun name => .simple name f.arguments f.flag

def CallFields.statement? (f : CallFields) : Option FilterStatement :=
  f.name.map fun name => .mk f.target name f.arguments f.flag

structure SliceFields where
  start : Option Int64 := none
  stop : Option Int64 := none
  stride : Option Int64 := none

def readSliceFields : List (String × Json) → SliceFields → Option SliceFields
  | [], f => some f
  | ("from", j) :: rest, f => do readSliceFields rest { f with start := ← readOptionalWord j }
  | ("to", j) :: rest, f => do readSliceFields rest { f with stop := ← readOptionalWord j }
  | ("step", j) :: rest, f => do readSliceFields rest { f with stride := ← readOptionalWord j }
  | _ :: rest, f => readSliceFields rest f

/-! ## Expressions -/

mutual
def readExpression : Json → Option Expression
  | .object [("basic", .object fields)] => (readBasicFields fields {}).bind BasicFields.finish
  | .object [("basic", .array [head])] => do return .basic (← readHead head) [] none
  | .object [("basic", .array [head, steps])] => do
    return .basic (← readHead head) (← readSteps steps) none
  | .object [("basic", .array [head, steps, tail])] => do
    return .basic (← readHead head) (← readSteps steps) (← readTail tail)
  | .object [("unary", .object fields)] =>
    (readOperatorFields fields {}).bind OperatorFields.unary?
  | .object [("binary", .object fields)] =>
    (readOperatorFields fields {}).bind OperatorFields.binary?
  | _ => none
termination_by structural j => j

def readBasicFields : List (String × Json) → BasicFields → Option BasicFields
  | [], f => some f
  | (key, j) :: rest, f =>
    if key = "head" then do readBasicFields rest { f with head := some (← readHead j) }
    else if key = "steps" then do readBasicFields rest { f with steps := ← readSteps j }
    else if key = "tail" then do readBasicFields rest { f with tail := ← readTail j }
    else readBasicFields rest f
termination_by structural fields => fields

def readOperatorFields : List (String × Json) → OperatorFields → Option OperatorFields
  | [], f => some f
  | (key, j) :: rest, f =>
    if key = "op" then readOperatorFields rest { f with op := some j }
    else if key = "operand" then do
      readOperatorFields rest { f with operand := some (← readExpression j) }
    else if key = "left" then do
      readOperatorFields rest { f with left := some (← readExpression j) }
    else if key = "right" then do
      readOperatorFields rest { f with right := some (← readExpression j) }
    else readOperatorFields rest f
termination_by structural fields => fields

def readHead : Json → Option Head
  | .string "undefined" => some .undefined
  | .string "relative" => some .relative
  | .object [("undefined", .null)] => some .undefined
  | .object [("relative", .null)] => some .relative
  | .object [("group", inner)] => (readExpression inner).map .group
  | .object [("value", literal)] => some (.value literal)
  | .object [("array", .array items)] => (readExpressions items).map .array
  | .object [("object", .array items)] => (readPairs items).map .object
  | .object [("function", .object fields)] =>
    (readCallFields "name" none fields {}).bind CallFields.function?
  | .object [("identifier", .string name)] => some (.identifier name)
  | _ => none
termination_by structural j => j

def readTail : Json → Option (Option Tail)
  | .null => some none
  | .object [("filter", filter)] => (readFilter filter).map (some ∘ .filter)
  | .object [("subtemplate", template)] => (readExpression template).map (some ∘ .subtemplate)
  | _ => none
termination_by structural j => j

def readFilter : Json → Option Filter
  | .object [("simple", .object fields)] =>
    (readCallFields "function" (some "each") fields {}).bind CallFields.simple?
  | .object [("extended", .array items)] => (readFilterStatements items).map .extended
  | _ => none
termination_by structural j => j

/-- The fields of a call, whose name and flag, if it has one, stand under the given keys. -/
def readCallFields (nameKey : String) (flagKey : Option String) :
    List (String × Json) → CallFields → Option CallFields
  | [], f => some f
  | (key, j) :: rest, f =>
    if key = nameKey then do
      readCallFields nameKey flagKey rest { f with name := some (← readText j) }
    else if key = "arguments" then do
      readCallFields nameKey flagKey rest { f with arguments := ← readArguments j }
    else if some key = flagKey then do
      readCallFields nameKey flagKey rest { f with flag := ← readBool j }
    else readCallFields nameKey flagKey rest f
termination_by structural fields => fields

/-- The fields of a filter statement. -/
def readStatementFields : List (String × Json) → CallFields → Option CallFields
  | [], f => some f
  | (key, j) :: rest, f =>
    if key = "target" then do readStatementFields rest { f with target := ← readSteps j }
    else if key = "function" then do
      readStatementFields rest { f with name := some (← readText j) }
    else if key = "arguments" then do
      readStatementFields rest { f with arguments := ← readArguments j }
    else if key = "each" then do readStatementFields rest { f with flag := ← readBool j }
    else readStatementFields rest f
termination_by structural fields => fields

def readFilterStatement : Json → Option FilterStatement
  | .object fields => (readStatementFields fields {}).bind CallFields.statement?
  | .array [target, function] => do
    return .mk (← readSteps target) (← readText function) [] false
  | .array [target, function, arguments] => do
    return .mk (← readSteps target) (← readText function) (← readArguments arguments) false
  | .array [target, function, arguments, each] => do
    return .mk (← readSteps target) (← readText function) (← readArguments arguments)
      (← readBool each)
  | _ => none
termination_by structural j => j

def readFilterStatements : List Json → Option (List FilterStatement)
  | [] => some []
  | j :: js => do return (← readFilterStatement j) :: (← readFilterStatements js)
termination_by structural items => items

def readArguments : Json → Option (List Expression)
  | .array items => readExpressions items
  | _ => none
termination_by structural j => j

def readExpressions : List Json → Option (List Expression)
  | [] => some []
  | j :: js => do return (← readExpression j) :: (← readExpressions js)
termination_by structural items => items

def readPairs : List Json → Option (List (String × Expression))
  | [] => some []
  | .array [.string key, j] :: js => do return (key, ← readExpression j) :: (← readPairs js)
  | _ :: _ => none
termination_by structural items => items

def readSteps : Json → Option (List Step)
  | .array items => readStepItems items
  | _ => none
termination_by structural j => j

def readStepItems : List Json → Option (List Step)
  | [] => some []
  | j :: js => do return (← readStep j) :: (← readStepItems js)
termination_by structural items => items

def readStep : Json → Option Step
  | .string "wildcard" => some .wildcard
  | .object [("wildcard", .null)] => some .wildcard
  | .object [("key", .string name)] => some (.key name)
  | .object [("index", j)] => (readWord j).map .index
  | .object [("slice", .object fields)] =>
    (readSliceFields fields {}).map fun f => .slice f.start f.stop f.stride
  | .object [("recursive_key", .string name)] => some (.recursiveKey name)
  | .object [("recursive_index", j)] => (readWord j).map .recursiveIndex
  | .object [("condition", condition)] => (readExpression condition).map .condition
  | .object [("attribute_finder", .object fields)] =>
    (readCallFields "name" (some "head") fields {}).bind CallFields.finder?
  | _ => none
termination_by structural j => j
end

/-! ## Documents -/

def readImportFields : List (String × Json) → Option (List (String × String))
  | [] => some []
  | (key, .string name) :: rest => (readImportFields rest).map ((key, name) :: ·)
  | _ :: _ => none

def Imports.ofJson? : Json → Option Imports
  | .object fields => (readImportFields fields).map SortedTable.ofList
  | _ => none

structure DefinitionFields where
  name : Option String := none
  value : Option Expression := none

def readDefinitionFields : List (String × Json) → DefinitionFields → Option DefinitionFields
  | [], f => some f
  | ("name", j) :: rest, f => do readDefinitionFields rest { f with name := some (← readText j) }
  | ("value", j) :: rest, f => do
    readDefinitionFields rest { f with value := some (← readExpression j) }
  | _ :: rest, f => readDefinitionFields rest f

def Statement.ofJson? : Json → Option Statement
  | .object [("value_definition", .object fields)] => do
    let f ← readDefinitionFields fields {}
    return .valueDefinition (← f.name) (← f.value)
  | .object [("condition", e)] => (readExpression e).map .condition
  | _ => none

/-- A list of records. -/
def readList {α : Type} (read : Json → Option α) : Json → Option (List α)
  | .array items => items.mapM read
  | _ => none

def readOptionalExpression : Json → Option (Option Expression)
  | .null => some none
  | j => (readExpression j).map some

/-- The fields of a document that have been read, in their order. -/
structure DocumentFields where
  name : Option String := none
  entitlement : Option Entitlement := none
  imports : Imports := .empty
  target : Option Expression := none
  body : List Statement := []
  obligations : List Expression := []
  advice : List Expression := []
  transformation : Option Expression := none

namespace DocumentFields

def read (f : DocumentFields) (key : String) (j : Json) : Option DocumentFields :=
  match key with
  | "name" => do return { f with name := some (← readText j) }
  | "entitlement" => do return { f with entitlement := some (← Entitlement.ofJson? j) }
  | "imports" => do return { f with imports := ← Imports.ofJson? j }
  | "target" => do return { f with target := ← readOptionalExpression j }
  | "body" => do return { f with body := ← readList Statement.ofJson? j }
  | "obligations" => do return { f with obligations := ← readArguments j }
  | "advice" => do return { f with advice := ← readArguments j }
  | "transformation" => do return { f with transformation := ← readOptionalExpression j }
  | _ => some f

def keys : List String :=
  ["name", "entitlement", "imports", "target", "body", "obligations", "advice", "transformation"]

def finish (f : DocumentFields) : Option Document := do
  return {
    name := ← f.name, entitlement := ← f.entitlement, imports := f.imports, target := f.target
    body := f.body, obligations := f.obligations, advice := f.advice
    transformation := f.transformation }

end DocumentFields

/-- Read the fields of a record one after the other. -/
def readRecord {α : Type} (read : α → String → Json → Option α) :
    List (String × Json) → α → Option α
  | [], f => some f
  | (key, j) :: rest, f => (read f key j).bind (readRecord read rest)

/-- The fields of a record: named ones, or as many as are given of `keys` in order. -/
def recordFields? (keys : List String) : Json → Option (List (String × Json))
  | .object fields => some fields
  | .array items => if items.length ≤ keys.length then some (keys.zip items) else none
  | _ => none

def Document.ofJson? (j : Json) : Option Document := do
  let fields ← recordFields? DocumentFields.keys j
  (← readRecord DocumentFields.read fields {}).finish

end PolicyDecision
