import RopeStore.Bench.Report
import RopeStore.Bench.Step
import RopeStore.Deferral.Inspect
import RopeStore.Log
import RopeStore.Sampling.Track
import RopeStore.Table
import RopeStore.Value.Change

/-!
# The world of a bench

* `World` : the heap, the queues, the records, and the named objects of every sort;
* `BenchM` : steps on a world. They can have the steps of a destroyed object performed, through the
  hook that they read;
* `onHeap`, `onQueue`, `onRecord` : operations of the library on a part of the world. Notices of the
  heap become log lines and events right after the operation that left them.
-/

namespace RopeStore.Bench
open Deferral (EntryId)
open Sampling (Registry RecordId Tracker)

/-- How the outside owner of an external node learns of its end. -/
inductive OwnerStyle
  | calledWithBytes
  | called
  | dropped

structure Owner where
  name : String
  style : OwnerStyle
  block : Option Nat

/-- What a handle owns. -/
inductive Payload
  | probe (name : String) (block : Option Nat)
  | other (name : String)
  | number (value : Nat)
  | text (value : String)
  | sample (record : RecordId)

structure Bay where
  kind : QueueKind
  queue : Deferral.Queue Payload

structure World where
  heap : Heap Owner
  /-- The queues, each at its number. The shared queue is always there, at `sharedNumber`. -/
  bays : Array Bay
  /-- The numbers of the queues by name. All names of the shared queue stand for one queue. -/
  queueNumbers : Table String Nat
  registry : Registry
  recordNames : Array String
  nodes : Table String NodeId
  raws : Table String NodeId
  values : Table String Value
  records : Table String RecordId
  trackers : Table String Tracker
  handles : Table String EntryId
  snapshots : Table String EntryId
  known : Table String EntryId
  entryNames : List (EntryId × String)
  events : Array Event

abbrev Hook := Nat → EStateM Complaint World (List Report)

abbrev BenchM := ReaderT Hook (EStateM Complaint World)

/-! ## Events -/

def emit (event : Event) : BenchM Unit := modify fun w => { w with events := w.events.push event }

def World.nameOf (w : World) (id : EntryId) : String := (w.entryNames.lookup id).getD ""

def log (record : Log.Record) : BenchM Unit := do emit (.logged (record.render (← get).nameOf))

/-- Has the steps of an object that was destroyed performed. -/
def callBack (name : String) : Option Nat → BenchM Unit
  | none => return
  | some block => do
    let reports ← (← read) block
    emit (.nested name reports)

/-- Tells an outside owner that it has its bytes back. -/
def giveBack (owner : Owner) (bytes : List UInt8) : BenchM Unit := do
  match owner.style with
  | .calledWithBytes => emit (.released owner.name (some bytes))
  | .called => emit (.released owner.name none)
  | .dropped => emit (.ownerDropped owner.name)
  callBack owner.name owner.block

/-! ## The heap -/

/-- Reads the notices of the heap. -/
def settle : BenchM Unit := do
  let notices := (← get).heap.notices
  modify fun w => { w with heap := { w.heap with notices := [] } }
  notices.forM fun notice => do
    log (.ofNotice notice)
    match notice with
    | .returned bytes (.lent owner) => giveBack owner bytes
    | _ => return

/-- Performs an operation on the heap; a fault is an answer, too. -/
def tryHeap {α : Type} (op : HeapM Owner α) : BenchM (Except Fault α) := do
  let w ← get
  match op.run w.heap with
  | .ok a heap =>
    set { w with heap }
    settle
    return .ok a
  | .error fault heap =>
    set { w with heap }
    settle
    return .error fault

/-- Goes on with an answer, or complains about a fault. -/
def orComplain {α : Type} : Except Fault α → BenchM α
  | .ok a => return a
  | .error fault => throw (.fault fault)

def onHeap {α : Type} (op : HeapM Owner α) : BenchM α := do orComplain (← tryHeap op)

/-! ## Records -/

def onRegistry {α : Type} (op : EStateM Fault Registry α) : BenchM α := do
  let w ← get
  match op.run w.registry with
  | .ok a registry =>
    set { w with registry }
    return a
  | .error fault registry =>
    set { w with registry }
    throw (.fault fault)

def nameRecord (name : String) : BenchM Unit :=
  modify fun w => { w with recordNames := w.recordNames.push name }

def newRecord (name : String) (record : Sampling.Record) : BenchM RecordId := do
  let id ← onRegistry (Registry.create record)
  nameRecord name
  return id

/-! ## Queues -/

def sharedNumber : Nat := 0

def QueueKind.lock : QueueKind → LockKind
  | .checking => .checking
  | .blocking | .shared => .blocking

def Bay.new (number : Nat) (kind : QueueKind) : Bay := ⟨kind, .new number kind.lock⟩

/-- The world in which `name` stands for a queue of a given kind: for the shared queue, or for a new
one. -/
def World.addQueue (w : World) (name : String) (kind : QueueKind) : World :=
  match kind with
  | .shared => { w with queueNumbers := w.queueNumbers.insert name sharedNumber }
  | _ =>
    { w with
      bays := w.bays.push (.new w.bays.size kind)
      queueNumbers := w.queueNumbers.insert name w.bays.size }

def queueNumber (name : String) : BenchM Nat := do
  match (← get).queueNumbers.get? name with
  | some number => return number
  | none => throw (.missing "queue" name)

def tryQueue {α : Type} (number : Nat) (op : Deferral.QueueM Payload α) :
    BenchM (Except Fault α) := do
  let w ← get
  match w.bays[number]? with
  | none => return .error .dangling
  | some bay =>
    match op.run bay.queue with
    | .ok a queue =>
      set { w with bays := w.bays.setIfInBounds number { bay with queue } }
      return .ok a
    | .error fault queue =>
      set { w with bays := w.bays.setIfInBounds number { bay with queue } }
      return .error fault

def onQueue {α : Type} (number : Nat) (op : Deferral.QueueM Payload α) : BenchM α := do
  orComplain (← tryQueue number op)

def onOffice {α : Type} (number : Nat) (op : EStateM Fault (Sampling.Office Payload) α) :
    BenchM α := do
  let w ← get
  match w.bays[number]? with
  | none => throw (.fault .dangling)
  | some bay =>
    match op.run ⟨w.registry, bay.queue⟩ with
    | .ok a ⟨registry, queue⟩ =>
      set { w with registry, bays := w.bays.setIfInBounds number { bay with queue } }
      return a
    | .error fault ⟨registry, queue⟩ =>
      set { w with registry, bays := w.bays.setIfInBounds number { bay with queue } }
      throw (.fault fault)

/-- Notes that the snapshot or handle `id` is called `name`. -/
def register (name : String) (id : EntryId) : BenchM Unit :=
  modify fun w =>
    { w with known := w.known.insert name id, entryNames := (id, name) :: w.entryNames }

def World.payload? (w : World) (handle : EntryId) : Option Payload := do
  let bay ← w.bays[handle.queue]?
  match (← bay.queue.cell? handle.serial).content with
  | .handle payload => some payload
  | .snapshot => none

/-! ## Ending snapshots and handles -/

def dropPayload : Payload → BenchM Unit
  | .probe name block => do
    emit (.payloadDropped name)
    callBack name block
  | .other name => emit (.payloadDropped name)
  | .number _ | .text _ | .sample _ => return

/-- Destroys the payload of a handle that was deleted, unless that has to wait. -/
def settleDeletion (handle : EntryId) : Option Payload → BenchM Unit
  | some payload => dropPayload payload
  | none => log (.deferred handle)

def deleteHandle (handle : EntryId) : BenchM Unit := do
  settleDeletion handle (← onQueue handle.queue (Deferral.Queue.delete handle))

/-- Drops a snapshot. The handles that were waiting only for it are destroyed one by one when it has
left the chain, so their payloads may use the queue. -/
def dropSnapshot (snapshot : EntryId) : BenchM Unit := do
  let doomed ← onQueue snapshot.queue
    (Deferral.Queue.locked (Deferral.Queue.removeSnapshot snapshot))
  log (.snapshotDropped snapshot doomed.length)
  doomed.forM fun handle => do
    log (.reclaiming handle)
    dropPayload (← onQueue handle.queue (Deferral.Queue.takePayload handle))
  let _ ← onQueue snapshot.queue (Deferral.Queue.destroy snapshot.serial)

end RopeStore.Bench
