import RopeStore.Deferral.Inspect
import RopeStore.Heap.Part
import RopeStore.Heap.Release
import RopeStore.Log
import RopeStore.Table
import RopeStore.Trial.Op

/-!
# The state of a trial

A trial works on a real heap and a real queue, and keeps a model of what it expects of them.

* `State` : both of them;
* `Check` : everything that a trial checks; `Failure` : why a trial ends early;
* `Line` : a line of the log of a trial, and `renderLog`, which names every snapshot and handle by
  the order in which they first appear;
* `onHeap`, `onQueue` : operations of the library, with the notices of the heap put into the log.
-/

namespace RopeStore.Trial
open Deferral (EntryId)

/-! ## Checks -/

inductive Check
  | bufferKind
  | externalKind
  | fullPartIsSource
  | partIsView
  | childIsNoView
  | childIsUnderlying
  | unique (references : Nat) (unique : Bool)
  | appended (count expected : Nat)
  | safeToDelete
  | length (id : UInt32)
  | contents (id : UInt32)
  | references (id : UInt32) (count expected : Nat)
  | releasedOnce (key : Nat)
  | releasedUnreachable (key : Nat)
  | unreleasedReachable (key : Nat)
  | payload (key deletedAt : Nat) (guarded dropped : Bool)
  | visiblePayloads (id : UInt32)
  | visibleHandles (id : UInt32)
  | judgement (id : UInt32) (key : Nat)
  | emptyWithoutSnapshots
  | pendingCount (pending expected : Nat)
  | entryCount (entries : Nat)
  | allReleased
  | drained
  | nonePending
  deriving DecidableEq, Repr

def Check.message : Check → String
  | .bufferKind => "a short node should be a buffer node"
  | .externalKind => "should be an external node"
  | .fullPartIsSource => "a full sub-range should share its source node"
  | .partIsView => "a partial sub-range should be a range node"
  | .childIsNoView => "range nodes should never wrap range nodes"
  | .childIsUnderlying => "a sub-range should wrap its source's underlying node"
  | .unique owners isOne =>
    s!"node with {owners} model references reports unique = {isOne}"
  | .appended count expected => s!"appended {count} bytes, expected {expected}"
  | .safeToDelete => "handles are safe to delete exactly when there are no snapshots"
  | .length id => s!"id{id}: length differs from the model"
  | .contents id => s!"id{id}: contents differ from the model"
  | .references id count expected => s!"id{id}: refcount {count} != {expected} model references"
  | .releasedOnce key => s!"external node {key} released twice, or never created"
  | .releasedUnreachable key => s!"external node {key} released while still reachable"
  | .unreleasedReachable key => s!"external node {key} unreachable but not released"
  | .payload key deletedAt guarded dropped =>
    s!"handle payload {key} deleted at {deletedAt}: protected = {guarded}, dropped = {dropped}"
  | .visiblePayloads id => s!"snapshot {id} sees the wrong payloads"
  | .visibleHandles id => s!"snapshot {id} reports the wrong safe-to-inspect handles"
  | .judgement id key => s!"snapshot {id} misjudges handle payload {key}"
  | .emptyWithoutSnapshots => "the queue should be empty exactly when there are no snapshots"
  | .pendingCount pending expected => s!"{pending} pending deletions, expected {expected}"
  | .entryCount entries => s!"the queue holds {entries} entries"
  | .allReleased => "every external node should be released"
  | .drained => "the queue should be empty without snapshots"
  | .nonePending => "no deletions should be pending"

inductive Failure
  | check (failed : Check)
  | fault (cause : Fault)
  deriving DecidableEq, Repr

/-! ## The log -/

inductive Line
  | store (record : Log.Record)
  | started
  | running (op : Op)
  | created (id : UInt32) (text : String)
  | released (key : Nat)
  deriving DecidableEq, Repr

def recordEntries : Log.Record → List EntryId
  | .snapshotMade id | .deferred id | .snapshotDropped id _ | .reclaiming id => [id]
  | _ => []

def Line.entries : Line → List EntryId
  | .store record => recordEntries record
  | _ => []

/-- All snapshots and handles of a log in the order in which they first appear. -/
def entryOrder (lines : List Line) : List EntryId := (lines.flatMap Line.entries).eraseDups

def Line.render (name : EntryId → String) : Line → String
  | .store record => record.render name
  | .started => "DEBUG ========== Running test operations =========="
  | .running op => "DEBUG Running " ++ op.describe
  | .created id text => s!"DEBUG new node: id{id} -> {text}"
  | .released key => s!"DEBUG external node {key} released"

def renderLog (lines : List Line) : List String :=
  let order := entryOrder lines
  lines.map (Line.render fun id => s!"#{order.idxOf id + 1}")

/-! ## State -/

/-- A node of the model: the reference to it and what is expected of it. -/
structure LiveNode where
  node : NodeId
  expected : List UInt8
  external : Option Nat

/-- A deleted handle whose payload may still be there. -/
structure DeletedHandle where
  key : Nat
  id : EntryId
  deletedAt : Nat

/-- The heap, the queue, and what is expected of them. -/
structure State where
  heap : Heap Nat
  queue : Deferral.Queue Nat
  nodes : Table UInt32 LiveNode
  /-- The keys of the external nodes that were not released, in ascending order. -/
  unreleased : List Nat
  /-- The snapshots, with the times at which they were made. -/
  snapshots : Table UInt32 (EntryId × Nat)
  handles : Table UInt32 EntryId
  /-- The deleted handles in the order of their deletion. -/
  deleted : List DeletedHandle
  clock : Nat
  lastKey : Nat
  /-- The keys of the external nodes that were released since the last check. -/
  released : List Nat
  /-- The keys of the payloads that were dropped since the last check. -/
  dropped : List Nat
  log : Array Line

abbrev TrialM := EStateM Failure State

def State.initial : State :=
  { heap := .initial
    queue := .new 0 .checking
    nodes := .empty
    unreleased := []
    snapshots := .empty
    handles := .empty
    deleted := []
    clock := 0
    lastKey := 0
    released := []
    dropped := []
    log := #[] }

def log (line : Line) : TrialM Unit := modify fun s => { s with log := s.log.push line }

/-- Ends the trial unless a condition holds. -/
def ensure (condition : Bool) (check : Check) : TrialM Unit :=
  unless condition do throw (.check check)

/-- Goes on with an answer, or ends the trial with a fault. -/
def orFail {α : Type} : Except Fault α → TrialM α
  | .ok a => return a
  | .error cause => throw (.fault cause)

def settle : TrialM Unit := do
  let notices := (← get).heap.notices
  modify fun s => { s with heap := { s.heap with notices := [] } }
  notices.forM fun notice => do
    log (.store (.ofNotice notice))
    match notice with
    | .returned _ (.lent key) => modify fun s => { s with released := s.released ++ [key] }
    | _ => return

def onHeap {α : Type} (op : HeapM Nat α) : TrialM α := do
  let s ← get
  match op.run s.heap with
  | .ok a heap =>
    set { s with heap }
    settle
    return a
  | .error cause heap =>
    set { s with heap }
    settle
    throw (.fault cause)

def readHeap {α : Type} (read : Heap Nat → Except Fault α) : TrialM α := do
  orFail (read (← get).heap)

def onQueue {α : Type} (op : Deferral.QueueM Nat α) : TrialM α := do
  let s ← get
  match op.run s.queue with
  | .ok a queue =>
    set { s with queue }
    return a
  | .error cause queue =>
    set { s with queue }
    throw (.fault cause)

/-- Notes that the payload with a given key was dropped. -/
def dropPayload (key : Nat) : TrialM Unit :=
  modify fun s => { s with dropped := s.dropped ++ [key] }

def endHandle (handle : EntryId) : TrialM Unit := do
  match ← onQueue (Deferral.Queue.delete handle) with
  | some key => dropPayload key
  | none => log (.store (.deferred handle))

def endSnapshot (snapshot : EntryId) : TrialM Unit := do
  let doomed ← onQueue (Deferral.Queue.dropSnapshot snapshot)
  log (.store (.snapshotDropped snapshot doomed.length))
  doomed.forM fun (handle, key) => do
    log (.store (.reclaiming handle))
    dropPayload key

end RopeStore.Trial
