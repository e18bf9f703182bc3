import RopeStore.Deferral.Chain
import RopeStore.Heap.Node
import RopeStore.Sampling.Method

/-!
# The log

* `Log.Record` : everything that is logged about nodes, queues and samples;
* `Log.Record.render` : its line, with the names of snapshots and handles given from outside.
-/

namespace RopeStore.Log
open Deferral (EntryId)

def entryText (name : EntryId → String) (id : EntryId) : String :=
  s!"HandleId \x7b addr: {name id}, is_snapshot: {id.isSnapshot} \x7d"

/-- Something worth a line in the log. -/
inductive Record
  | freed (size : Nat)
  | returned (length : Nat)
  | malformedTag (tag : UInt8)
  | viewOverView
  | snapshotMade (id : EntryId)
  | deferred (id : EntryId)
  /-- A snapshot was dropped, and `doomed` handles were waiting only for it. -/
  | snapshotDropped (id : EntryId) (doomed : Nat)
  | reclaiming (id : EntryId)
  | sampling (method : Sampling.Method) (length : Nat)
  deriving DecidableEq, Repr

def Record.ofNotice {ρ : Type} : Notice ρ → Record
  | .freed size => .freed size
  | .returned bytes _ => .returned bytes.length
  | .malformedTag tag => .malformedTag tag
  | .viewOverView => .viewOverView

/-- The line of a record: its level and its text. -/
def Record.render (name : EntryId → String) : Record → String
  | .freed size => s!"TRACE freeing buffer node of {size} bytes"
  | .returned length => s!"TRACE releasing external node of {length} bytes"
  | .malformedTag tag => s!"ERROR encountered a node with invalid tag {tag.toNat}"
  | .viewOverView => "ERROR attempted to create a range node over another range node"
  | .snapshotMade id => "TRACE created snapshot " ++ entryText name id
  | .deferred id => "TRACE deferred deletion of handle " ++ entryText name id
  | .snapshotDropped id doomed =>
    "DEBUG dropped snapshot " ++ entryText name id ++ s!", reclaiming {doomed} deleted handles"
  | .reclaiming id => "TRACE reclaiming deleted handle " ++ entryText name id
  | .sampling method length => s!"TRACE sampling {method.name} value of {length} bytes"

end RopeStore.Log
