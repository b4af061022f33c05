import PolicyDecision.Error
import PolicyDecision.Syntax.Decoding

/-!
# PolicyDecision.Index.Update

Changes of the set of published documents.

* `Update`: a document is published or withdrawn, or the source of the documents says whether it
  is in a consistent state.
* `UpdateBatch`: updates that take place together or not at all.
* `Publications.applyAll`: the documents after a batch. Publishing a name that is in use refuses
  the batch; withdrawing an unknown one changes nothing.
-/

namespace PolicyDecision

inductive Update where
  | publish (document : Document)
  | withdraw (name : String)
  | markConsistent
  | markInconsistent

structure UpdateBatch where
  updates : List Update := []

namespace UpdateBatch

def add (b : UpdateBatch) (u : Update) : UpdateBatch := ⟨b.updates ++ [u]⟩

def publish (b : UpdateBatch) (d : Document) : UpdateBatch := b.add (.publish d)

def withdraw (b : UpdateBatch) (name : String) : UpdateBatch := b.add (.withdraw name)

def consistent (b : UpdateBatch) : UpdateBatch := b.add .markConsistent

def inconsistent (b : UpdateBatch) : UpdateBatch := b.add .markInconsistent

def isEmpty (b : UpdateBatch) : Bool := b.updates.isEmpty

end UpdateBatch

/-! ## JSON form -/

namespace Update

def toJson : Update → Json
  | publish d => .form "publish" d.toJson
  | withdraw name => .form "withdraw" (.string name)
  | markConsistent => .string "mark_consistent"
  | markInconsistent => .string "mark_inconsistent"

def ofJson? (j : Json) : Option Update :=
  match j with
  | .object [("publish", d)] => (Document.ofJson? d).map publish
  | .object [("withdraw", name)] => (readText name).map withdraw
  | j =>
    match plainForm? j with
    | some "mark_consistent" => some markConsistent
    | some "mark_inconsistent" => some markInconsistent
    | _ => none

end Update

namespace UpdateBatch

def toJson (b : UpdateBatch) : Json := .object [("updates", .array (b.updates.map Update.toJson))]

def ofJson? (j : Json) : Option UpdateBatch := do
  let fields ← recordFields? ["updates"] j
  return ⟨← readList Update.ofJson? (← fields.lookup "updates")⟩

end UpdateBatch

/-! ## Batches -/

/-- Documents in some compiled form `α`, with what compiling them builds up. -/
structure Publications (σ α : Type) where
  documents : SortedTable α
  state : σ
  consistent : Bool

namespace Publications

variable {σ α : Type}

/-- One update; `compile` makes a document into its compiled form. -/
def apply (compile : Document → σ → α × σ) (p : Publications σ α) :
    Update → Except Error (Publications σ α)
  | .publish d =>
    if p.documents.contains d.name then .error (.nameCollision d.name)
    else
      let (compiled, state) := compile d p.state
      .ok { p with documents := p.documents.insert d.name compiled, state }
  | .withdraw name => .ok { p with documents := p.documents.erase name }
  | .markConsistent => .ok { p with consistent := true }
  | .markInconsistent => .ok { p with consistent := false }

def applyAll (compile : Document → σ → α × σ) (p : Publications σ α) :
    List Update → Except Error (Publications σ α)
  | [] => .ok p
  | u :: rest =>
    match p.apply compile u with
    | .ok p => p.applyAll compile rest
    | .error e => .error e

end Publications
end PolicyDecision
