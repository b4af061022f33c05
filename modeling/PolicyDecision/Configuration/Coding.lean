import PolicyDecision.Configuration.Basic
import PolicyDecision.Syntax.Decoding
import PolicyDecision.Toml.Parser

/-!
# PolicyDecision.Configuration.Coding

Configurations as text.

* `Configuration.toJson`, `Configuration.ofJson?`: the JSON form.
* `Configuration.ofToml`: a TOML document, which is validated.
* `Configuration.load`: the contents of a file, if it could be read.

All fields may be missing and others are ignored. In TOML, where null is not written, the content of
a form without content is empty, and a list may have more items than the record has fields.
-/

namespace PolicyDecision

def IndexKind.name : IndexKind → String
  | canonical => "canonical"
  | naive => "naive"

def IndexKind.ofName? : String → Option IndexKind
  | "canonical" => some canonical
  | "naive" => some naive
  | _ => none

def PredicateOrder.name : PredicateOrder → String
  | mostReferenced => "most_referenced"
  | definition => "definition"

def PredicateOrder.ofName? : String → Option PredicateOrder
  | "most_referenced" => some mostReferenced
  | "definition" => some definition
  | _ => none

def PredicateOrder.ofJson? (j : Json) : Option PredicateOrder := (plainForm? j).bind ofName?

/-- The name of a form with empty content. -/
def emptyForm? : Json → Option String
  | .string name => some name
  | .object [(name, .array [])] => some name
  | .object [(name, .object [])] => some name
  | _ => none

/-- What differs between the formats of a configuration. -/
structure ConfigurationFormat where
  form? : Json → Option String
  fields? : List String → Json → Option (List (String × Json))

namespace ConfigurationFormat

def json : ConfigurationFormat := ⟨plainForm?, recordFields?⟩

def toml : ConfigurationFormat where
  form? := emptyForm?
  fields? := fun keys j =>
    match j with
    | .array items => some (keys.zip items)
    | j => recordFields? keys j

end ConfigurationFormat

namespace IndexOptions

def toJson (o : IndexOptions) : Json :=
  .object [("kind", .string o.kind.name), ("predicate_order", .string o.predicateOrder.name),
    ("max_clauses", .ofNat o.maxClauses)]

def readField (format : ConfigurationFormat) (o : IndexOptions) (key : String) (j : Json) :
    Option IndexOptions :=
  match key with
  | "kind" => do return { o with kind := ← (format.form? j).bind IndexKind.ofName? }
  | "predicate_order" => do
    return { o with predicateOrder := ← (format.form? j).bind PredicateOrder.ofName? }
  | "max_clauses" => do return { o with maxClauses := ← j.number?.bind Number.nat? }
  | _ => some o

def read? (format : ConfigurationFormat) (j : Json) : Option IndexOptions := do
  let fields ← format.fields? ["kind", "predicate_order", "max_clauses"] j
  readRecord (readField format) fields {}

end IndexOptions

namespace Configuration

def toJson (c : Configuration) : Json :=
  .object [("index", c.index.toJson), ("variables", .object c.globals.entries)]

def readField (format : ConfigurationFormat) (c : Configuration) (key : String) (j : Json) :
    Option Configuration :=
  match key with
  | "index" => do return { c with index := ← IndexOptions.read? format j }
  | "variables" => do return { c with globals := .ofList (← j.fields?) }
  | _ => some c

def read? (format : ConfigurationFormat) (j : Json) : Option Configuration := do
  readRecord (readField format) (← format.fields? ["index", "variables"] j) {}

def ofJson? (j : Json) : Option Configuration := read? .json j

def ofToml (text : String) : Except Error Configuration :=
  match (Toml.parse? text).bind (read? .toml) with
  | none => .error .malformedConfiguration
  | some c =>
    match c.validate with
    | .ok () => .ok c
    | .error e => .error e

/-- Why a configuration file is of no use. -/
inductive LoadError where
  | unreadable (file : String)
  | invalid (cause : Error)

def LoadError.message : LoadError → String
  | .unreadable file => "Failed to read configuration file " ++ file
  | .invalid _ => "Failed to parse configuration file"

def load (file : String) (contents : Option String) : Except LoadError Configuration :=
  match contents with
  | none => .error (.unreadable file)
  | some text =>
    match ofToml text with
    | .ok c => .ok c
    | .error e => .error (.invalid e)

end Configuration
end PolicyDecision
