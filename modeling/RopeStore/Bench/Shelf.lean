import RopeStore.Bench.World

/-!
# Shelves

All objects of one sort stand on a shelf, by name. The shelves differ in what happens to an object
that is dropped; finding, taking and storing are the same for all of them.

* storing under a name in use puts the new object on the shelf first and drops the old one then;
* `dropNext` drops the first object of the first shelf that is not empty.
-/

namespace RopeStore.Bench
open Deferral (EntryId)
open Sampling (RecordId Tracker)

/-- All objects of one sort. -/
structure Shelf (α : Type) where
  sort : String
  table : World → Table String α
  update : World → Table String α → World
  discard : α → BenchM Unit

namespace Shelf
variable {α : Type}

def find? (shelf : Shelf α) (name : String) : BenchM (Option α) := do
  return (shelf.table (← get)).get? name

def find (shelf : Shelf α) (name : String) : BenchM α := do
  match ← shelf.find? name with
  | some object => return object
  | none => throw (.missing shelf.sort name)

def take (shelf : Shelf α) (name : String) : BenchM α := do
  let object ← shelf.find name
  modify fun w => shelf.update w ((shelf.table w).erase name)
  return object

/-- Puts another object in the place of one that is there, which is not dropped. -/
def replace (shelf : Shelf α) (name : String) (object : α) : BenchM Unit :=
  modify fun w => shelf.update w ((shelf.table w).insert name object)

/-- Puts an object on the shelf, and drops the one that had its name. -/
def store (shelf : Shelf α) (name : String) (object : α) : BenchM Unit := do
  let old ← shelf.find? name
  shelf.replace name object
  if let some old := old then shelf.discard old

def drop (shelf : Shelf α) (name : String) : BenchM Unit := do
  shelf.discard (← shelf.take name)

/-- Drops the first object of a shelf and notes if that is not possible. The answer is whether there
was one. -/
def dropFirst (shelf : Shelf α) : BenchM Bool := do
  match (shelf.table (← get)).first? with
  | none => return false
  | some (name, _) =>
    try shelf.drop name
    catch complaint => emit (.stopped complaint)
    return true

end Shelf

/-! ## The shelves -/

def nodes : Shelf NodeId where
  sort := "node"
  table := (·.nodes)
  update w nodes := { w with nodes }
  discard id := onHeap (Heap.release id)

/-- The references to nodes that were turned into raw ones. -/
def raws : Shelf NodeId where
  sort := "raw"
  table := (·.raws)
  update w raws := { w with raws }
  discard id := onHeap (Heap.release id)

/-- Performs a change on a value that is not on the shelf; the answer holds the value after it. -/
def onLooseValue {α : Type} (v : Value) (op : Value.ValueM Owner α) :
    BenchM (Except Fault α × Value) := do
  let w ← get
  match op.run ⟨w.heap, v⟩ with
  | .ok a held =>
    set { w with heap := held.heap }
    settle
    return (.ok a, held.value)
  | .error fault held =>
    set { w with heap := held.heap }
    settle
    return (.error fault, held.value)

def values : Shelf Value where
  sort := "value"
  table := (·.values)
  update w values := { w with values }
  discard v := do orComplain (← onLooseValue v Value.drop).1

/-- The records that belong to the script. -/
def records : Shelf RecordId where
  sort := "record"
  table := (·.records)
  update w records := { w with records }
  discard _ := return

def trackers : Shelf Tracker where
  sort := "tracker"
  table := (·.trackers)
  update w trackers := { w with trackers }
  discard _ := return

def handles : Shelf EntryId where
  sort := "handle"
  table := (·.handles)
  update w handles := { w with handles }
  discard := deleteHandle

def snapshots : Shelf EntryId where
  sort := "snapshot"
  table := (·.snapshots)
  update w snapshots := { w with snapshots }
  discard := dropSnapshot

/-- Drops the first object of the first shelf that is not empty. The answer is whether there was
one. -/
def dropNext : BenchM Bool := do
  if ← values.dropFirst then return true
  if ← nodes.dropFirst then return true
  if ← raws.dropFirst then return true
  if ← records.dropFirst then return true
  if ← trackers.dropFirst then return true
  if ← handles.dropFirst then return true
  snapshots.dropFirst

end RopeStore.Bench
