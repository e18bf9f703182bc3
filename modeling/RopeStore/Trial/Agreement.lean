import RopeStore.Trial.Model

/-!
# What a trial checks after every operation

* `checkNodes` : length, bytes and count of every node are those of the model. The model counts the
  references to a node as the live nodes that are it, and the different views over it;
* `checkReleases` : external nodes are released once, as soon as no live node needs them;
* `checkQueue` : the payload of a deleted handle is there exactly as long as a snapshot is that was
  made before, and snapshots see exactly the payloads that were deleted after them.
-/

namespace RopeStore.Trial

/-! ## Nodes -/

def childOf? (h : Heap Nat) (id : NodeId) : Option NodeId :=
  (h.find? id).bind fun n => n.body.view?.map (·.2)

/-- The references to node `target` that the model knows of. -/
def State.referencesTo (s : State) (target : NodeId) : Nat :=
  let live := s.nodes.values.map (·.node)
  let views := (live.filter fun id => childOf? s.heap id = some target).eraseDups
  live.count target + views.length

/-- The number of bytes of all live nodes together. -/
def State.payloadBytes (s : State) : Except Fault Nat :=
  s.nodes.values.foldlM (fun total live => checkedAdd total live.expected.length) 0

def checkNode (id : UInt32) (live : LiveNode) : TrialM Unit := do
  ensure ((← readHeap (·.length live.node)) == live.expected.length) (.length id)
  ensure ((← readHeap (·.bytes live.node)) == live.expected) (.contents id)
  let expected := (← get).referencesTo live.node
  let count := (← readHeap (·.node live.node)).refs.get
  ensure (count == expected) (.references id count expected)

def checkNodes : TrialM Unit := do
  (← get).nodes.entries.forM fun (id, live) => checkNode id live

/-! ## Releases -/

/-- Checks the external nodes that were released, and those that were not. -/
def checkReleases : TrialM Unit := do
  let reachable := (← get).nodes.values.filterMap (·.external)
  let released := (← get).released
  modify fun s => { s with released := [] }
  released.forM fun key => do
    log (.released key)
    ensure ((← get).unreleased.contains key) (.releasedOnce key)
    modify fun s => { s with unreleased := s.unreleased.erase key }
    ensure (!reachable.contains key) (.releasedUnreachable key)
  (← get).unreleased.forM fun key => ensure (reachable.contains key) (.unreleasedReachable key)

/-! ## The queue -/

/-- Checks that the payload of a deleted handle is there exactly if a snapshot needs it. The answer
is whether it is. -/
def checkDeleted (oldest : Option Nat) (dropped : List Nat) (d : DeletedHandle) : TrialM Bool := do
  let guarded := oldest.any (· < d.deletedAt)
  let gone := dropped.contains d.key
  ensure (guarded != gone) (.payload d.key d.deletedAt guarded gone)
  return guarded

/-- Checks what a snapshot that was made at a given time sees. -/
def checkSnapshot (id : UInt32) (snapshot : Deferral.EntryId) (madeAt : Nat) : TrialM Unit := do
  let deleted := (← get).deleted
  let after := deleted.filter fun d => madeAt < d.deletedAt
  let visible ← onQueue (Deferral.Queue.inspectDeleted snapshot fun key => some key)
  ensure (visible == after.map (·.key)) (.visiblePayloads id)
  let handles ← onQueue (Deferral.Queue.safeHandles snapshot)
  ensure (handles == after.map (·.id)) (.visibleHandles id)
  deleted.forM fun d => do
    let safe ← onQueue (Deferral.Queue.isSafeToInspect snapshot (some d.id))
    ensure (safe == decide (madeAt < d.deletedAt)) (.judgement id d.key)

def checkQueue : TrialM Unit := do
  let s ← get
  let oldest := (s.snapshots.values.map (·.2)).min?
  modify fun s => { s with dropped := [] }
  let waiting ← s.deleted.filterM (checkDeleted oldest s.dropped)
  modify fun s => { s with deleted := waiting }
  s.snapshots.entries.forM fun (id, snapshot, madeAt) => checkSnapshot id snapshot madeAt
  let isEmpty ← onQueue do return (← get).isEmpty
  ensure (isEmpty == (s.snapshots.size == 0)) .emptyWithoutSnapshots
  let pending := (← onQueue Deferral.Queue.readStats).pending
  ensure (pending == waiting.length) (.pendingCount pending waiting.length)
  let entries := (← onQueue Deferral.Queue.entries).length
  ensure (entries == s.snapshots.size + waiting.length) (.entryCount entries)

end RopeStore.Trial
