import PolicyDecision.Json.Basic

/-!
# PolicyDecision.Toml.Node

The tree that a TOML document builds up.

* `Origin`: how a table came to be, which says what may still be added to it.
* `Table.define`: a value under a dotted key.
* `Table.updateAt`, `Table.takeOut`, `Table.putBack`: tables under headers.
* `Table.toJson`: the document as a JSON object.

A table that an earlier header implied moves to the end of its parent when it gets a header of its
own.
-/

namespace PolicyDecision
namespace Toml

/-- A table is implied by the header of a table inside it, made by dotted keys, or defined by a
header. -/
inductive Origin where
  | implied
  | dotted
  | defined
deriving DecidableEq

inductive Node where
  | value (json : Json)
  | table (origin : Origin) (entries : List (String × Node))
  | tables (items : List (List (String × Node)))

abbrev Table := List (String × Node)

namespace Table

/-- Put a value under a dotted key. Only tables that dotted keys have made can be added to, and
nothing is defined twice. -/
def define (key : String) (node : Node) : List String → Table → Option Table
  | [], t => if (t.lookup key).isSome then none else some (t ++ [(key, node)])
  | first :: rest, t =>
    match t.lookup first with
    | none => do return t ++ [(first, .table .dotted (← define key node rest []))]
    | some (.table origin inner) =>
      if origin = .defined || (rest.isEmpty && origin != .dotted) then none
      else do return Entries.put first (.table origin (← define key node rest inner)) t
    | some (.tables items) =>
      if rest.isEmpty then none
      else do
        let last ← define key node rest (← items.getLast?)
        return Entries.put first (.tables (items.dropLast ++ [last])) t
    | some (.value _) => none

/-- Change the table under a header. In a list of tables the header means the last one. -/
def updateAt {α : Type} (change : Table → Option (Table × α)) :
    List String → Table → Option (Table × α)
  | [], t => change t
  | first :: rest, t =>
    match t.lookup first with
    | none => do
      let (inner, a) ← updateAt change rest []
      return (t ++ [(first, .table .implied inner)], a)
    | some (.table origin inner) => do
      let (inner, a) ← updateAt change rest inner
      return (Entries.put first (.table origin inner) t, a)
    | some (.tables items) => do
      let (last, a) ← updateAt change rest (← items.getLast?)
      return (Entries.put first (.tables (items.dropLast ++ [last])) t, a)
    | some (.value _) => none

/-- Take the table of a header out of its parent, so that it can be filled. -/
def takeOut (key : String) (parent : Table) : Option (Table × Table) :=
  match parent.lookup key with
  | none => some (parent, [])
  | some (.table .implied inner) => some (parent.filter (·.1 != key), inner)
  | some _ => none

/-- Put a table that is filled under its header. -/
def putBack (key : String) (inner parent : Table) : Option (Table × Unit) :=
  some (Entries.put key (.table .defined inner) parent, ())

/-- Make sure that a list of tables is there. -/
def openList (key : String) (parent : Table) : Option (Table × Table) :=
  match parent.lookup key with
  | none => some (parent ++ [(key, .tables [])], [])
  | some (.tables _) => some (parent, [])
  | some _ => none

/-- Add a table that is filled to the end of a list of tables. -/
def addToList (key : String) (inner parent : Table) : Option (Table × Unit) :=
  match parent.lookup key with
  | some (.tables items) => some (Entries.put key (.tables (items ++ [inner])) parent, ())
  | _ => none

end Table

mutual
def Node.toJson : Node → Json
  | .value json => json
  | .table _ entries => .object (entriesJson entries)
  | .tables items => .array (tablesJson items)

def entriesJson : List (String × Node) → List (String × Json)
  | [] => []
  | (key, node) :: rest => (key, node.toJson) :: entriesJson rest

def tablesJson : List (List (String × Node)) → List Json
  | [] => []
  | t :: rest => .object (entriesJson t) :: tablesJson rest
end

def Table.toJson (t : Table) : Json := .object (entriesJson t)

end Toml
end PolicyDecision
