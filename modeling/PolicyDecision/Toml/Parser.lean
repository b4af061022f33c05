import PolicyDecision.Toml.Node
import PolicyDecision.Toml.Scalar

/-!
# PolicyDecision.Toml.Parser

Reading TOML documents; dates and times are not read.

* `readValue`: a value. Arrays and inline tables nest less deep than `nestingLimit`.
* `Draft`: the document so far, with the table that the current header fills.
* `Toml.parse?`: the document as a JSON object.
-/

namespace PolicyDecision
namespace Toml

/-- The rest after blanks, a comment and the end of the line, or of the text. -/
def lineRest? (text : List Char) : Option (List Char) :=
  let rest := match skipBlanks text with
    | '#' :: rest => rest.dropWhile isPlain
    | rest => rest
  if rest.isEmpty then some [] else lineEnd? rest

/-- The rest after blanks, comments and line ends. -/
def skipSpace : Nat → List Char → Option (List Char)
  | 0, _ => none
  | fuel + 1, text =>
    match skipBlanks text with
    | '#' :: rest =>
      match lineEnd? (rest.dropWhile isPlain) with
      | some rest => skipSpace fuel rest
      | none => none
    | rest =>
      match lineEnd? rest with
      | some rest => skipSpace fuel rest
      | none => some rest

mutual
/-- A value; `depth` is the nesting that is left. -/
def readValue : Nat → Nat → Reader Json
  | 0, _, _ => none
  | fuel + 1, depth, text =>
    match text with
    | 't' :: 'r' :: 'u' :: 'e' :: rest => some (.bool true, rest)
    | 'f' :: 'a' :: 'l' :: 's' :: 'e' :: rest => some (.bool false, rest)
    | '[' :: rest =>
      match depth with
      | 0 => none
      | depth + 1 =>
        match rest with
        | ']' :: rest => some (.array [], rest)
        | rest => (readItems fuel depth rest []).map fun (items, rest) => (.array items, rest)
    | '\x7b' :: rest =>
      match depth with
      | 0 => none
      | depth + 1 =>
        match skipBlanks rest with
        | '\x7d' :: rest => some (.object [], rest)
        | rest => (readFields fuel depth rest []).map fun (t, rest) => (Table.toJson t, rest)
    | '"' :: _ => (readText text).map fun (s, rest) => (.string s, rest)
    | '\'' :: _ => (readText text).map fun (s, rest) => (.string s, rest)
    | text => readNumber text

/-- The items of an array up to its end; a comma may stand after the last one. -/
def readItems : Nat → Nat → List Char → List Json → Option (List Json × List Char)
  | 0, _, _, _ => none
  | fuel + 1, depth, text, done =>
    match skipSpace (text.length + 1) text with
    | none => none
    | some (']' :: rest) => some (done.reverse, rest)
    | some text =>
      match readValue fuel depth text with
      | none => none
      | some (j, rest) =>
        match skipSpace (rest.length + 1) rest with
        | some (',' :: rest) => readItems fuel depth rest (j :: done)
        | some (']' :: rest) => some ((j :: done).reverse, rest)
        | _ => none

/-- The fields of an inline table up to its end. -/
def readFields : Nat → Nat → List Char → Table → Option (Table × List Char)
  | 0, _, _, _ => none
  | fuel + 1, depth, text, done =>
    match readKey text with
    | some ((path, key), '=' :: rest) =>
      match readValue fuel depth (skipBlanks rest) with
      | none => none
      | some (j, rest) =>
        match Table.define key (.value j) path done with
        | none => none
        | some done =>
          match skipBlanks rest with
          | ',' :: rest => readFields fuel depth rest done
          | '\x7d' :: rest => some (done, rest)
          | _ => none
    | _ => none
end

/-! ## Documents -/

/-- A header: the path to the parent of its table, its last part, and whether it adds to a list of
tables. -/
structure Header where
  path : List String
  key : String
  isList : Bool

structure Draft where
  root : Table := []
  /-- The table that is being filled. -/
  current : Table := []
  header : Option Header := none

namespace Draft

/-- Put the current table where it belongs. -/
def finish (d : Draft) : Option Table :=
  match d.header with
  | none => some d.current
  | some h =>
    let place := if h.isList then Table.addToList h.key d.current else Table.putBack h.key d.current
    (Table.updateAt place h.path d.root).map (·.1)

def startTable (d : Draft) (h : Header) : Option Draft := do
  let start := if h.isList then Table.openList h.key else Table.takeOut h.key
  let (root, current) ← Table.updateAt start h.path (← d.finish)
  return ⟨root, current, some h⟩

def define (d : Draft) (path : List String) (key : String) (j : Json) : Option Draft := do
  return { d with current := ← Table.define key (.value j) path d.current }

end Draft

/-- A header, after its opening brackets. -/
def readHeader (isList : Bool) : Reader Header := fun text => do
  let ((path, key), rest) ← readKey text
  match isList, rest with
  | false, ']' :: rest => return (⟨path, key, false⟩, rest)
  | true, ']' :: ']' :: rest => return (⟨path, key, true⟩, rest)
  | _, _ => none

/-- A header or a definition. -/
def readEntry (d : Draft) : Reader Draft
  | '[' :: '[' :: rest => do
    let (h, rest) ← readHeader true rest
    return (← d.startTable h, rest)
  | '[' :: rest => do
    let (h, rest) ← readHeader false rest
    return (← d.startTable h, rest)
  | text => do
    match ← readKey text with
    | ((path, key), '=' :: rest) =>
      let (j, rest) ← readValue (text.length + 1) (nestingLimit - 1) (skipBlanks rest)
      return (← d.define path key j, rest)
    | _ => none

/-- The entries of a document, one on a line. -/
def readEntries : Nat → Draft → List Char → Option Draft
  | 0, _, _ => none
  | fuel + 1, d, text =>
    match skipBlanks text with
    | [] => some d
    | text =>
      match lineRest? text with
      | some rest => readEntries fuel d rest
      | none => do
        let (d, rest) ← readEntry d text
        readEntries fuel d (← lineRest? rest)

/-- A document may open with a byte order mark. -/
def skipMark : List Char → List Char
  | c :: rest => if c.toNat = 0xFEFF then rest else c :: rest
  | [] => []

def parse? (text : String) : Option Json := do
  let d ← readEntries (text.length + 1) {} (skipMark text.toList)
  return (← d.finish).toJson

end Toml
end PolicyDecision
