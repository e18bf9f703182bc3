import RopeStore.Trial.Agreement

/-!
# Running a trial

* `Op.perform` : one operation on heap, queue and model. Operations on what does not exist do
  nothing, and no node is made that would exceed the limit of payload bytes;
* `tearDown` : gives up all nodes, handles and snapshots, each by number;
* `run` : a whole trial; every operation that did something is followed by all checks.
-/

namespace RopeStore.Trial

def keyBound : Nat := UInt32.size

def newKey : TrialM Nat := do
  let key := (← get).lastKey + 1
  if keyBound ≤ key then throw (.fault .addOverflow)
  modify fun s => { s with lastKey := key }
  return key

/-- The time of something that happens now. -/
def tick : TrialM Nat := do
  let now ← orFail (checkedAdd (← get).clock 1)
  modify fun s => { s with clock := now }
  return now

/-- Whether `length` bytes more would exceed the limit of payload bytes. -/
def exceeds (limit length : Nat) : TrialM Bool := do
  let total ← orFail (← get).payloadBytes
  return limit < (← orFail (checkedAdd total length))

/-- Puts a node into the model, and then gives up the one that had its number. -/
def insertNode (id : UInt32) (live : LiveNode) : TrialM Unit := do
  log (.created id (← readHeap (·.describe live.node)))
  let old := (← get).nodes.get? id
  modify fun s => { s with nodes := s.nodes.insert id live }
  if let some old := old then onHeap (Heap.release old.node)

/-- Deletes a handle and notes when. -/
def retireHandle (handle : Deferral.EntryId) : TrialM Unit := do
  match ← onQueue (Deferral.Queue.ask (·.cell handle.serial)) with
  | ⟨.snapshot, _, _⟩ => throw (.fault .dangling)
  | ⟨.handle key, _, _⟩ =>
    let deletedAt ← tick
    modify fun s => { s with deleted := s.deleted ++ [⟨key, handle, deletedAt⟩] }
    endHandle handle

def kindOf (id : NodeId) : TrialM NodeKind := do (← readHeap (·.body id)).kind |> orFail

/-- Checks that a part of a node shares what it should. -/
def checkPart (source part : NodeId) (whole : Bool) : TrialM Unit := do
  if whole then ensure (part == source) .fullPartIsSource
  else
    match childOf? (← get).heap part with
    | none => throw (.check .partIsView)
    | some child =>
      ensure ((← kindOf child) != .view) .childIsNoView
      let underlying := (childOf? (← get).heap source).getD source
      ensure (child == underlying) .childIsUnderlying

/-- Performs one operation. The answer is whether it did something. -/
def Op.perform (limit : Nat) : Op → TrialM Bool
  | .newBuffer id length fill => do
    if ← exceeds limit length.toNat then return false
    let expected := List.replicate length.toNat fill
    let node ← onHeap (Heap.ofBytes expected)
    ensure ((← kindOf node) == .buffer) .bufferKind
    insertNode id ⟨node, expected, none⟩
    return true
  | .newExternal id length fill => do
    if ← exceeds limit length.toNat then return false
    let key ← newKey
    let expected := List.replicate length.toNat fill
    let node ← onHeap (Heap.ofOwner expected key)
    ensure ((← kindOf node) == .external) .externalKind
    modify fun s => { s with unreleased := s.unreleased ++ [key] }
    insertNode id ⟨node, expected, some key⟩
    return true
  | .subRange id src pos length => do
    match (← get).nodes.get? src with
    | none => return false
    | some source =>
      let all := source.expected.length
      if all = 0 then return false
      let start := pos.toNat % all
      let count := 1 + length.toNat % (all - start)
      let node ← onHeap (Heap.part source.node start count)
      let expected ← orFail (slice source.expected start count)
      checkPart source.node node (count == all)
      insertNode id ⟨node, expected, source.external⟩
      return true
  | .cloneNode id src => do
    match (← get).nodes.get? src with
    | none => return false
    | some source =>
      onHeap (Heap.retain source.node)
      insertNode id source
      return true
  | .dropNode id => do
    if let some live := (← get).nodes.get? id then
      modify fun s => { s with nodes := s.nodes.erase id }
      onHeap (Heap.release live.node)
    return true
  | .append id length fill => do
    match (← get).nodes.get? id with
    | none => return false
    | some live =>
      let references := (← get).referencesTo live.node
      let data := List.replicate length.toNat fill
      let n ← readHeap (·.node live.node)
      let unique := n.refs.isOne
      ensure (unique == (references == 1)) (.unique references unique)
      let room ← match ← orFail n.body.capacity with
        | some capacity =>
          if unique then orFail (checkedSub capacity live.expected.length) else pure 0
        | none => pure 0
      let count ← onHeap (Heap.append live.node data)
      let expected := min room data.length
      ensure (count == expected) (.appended count expected)
      let appended ← orFail (slice data 0 count)
      let grown := { live with expected := live.expected ++ appended }
      modify fun s => { s with nodes := s.nodes.insert id grown }
      return true
  | .newSnapshot id => do
    let madeAt ← tick
    let snapshot ← onQueue Deferral.Queue.openSnapshot
    log (.store (.snapshotMade snapshot))
    let old := (← get).snapshots.get? id
    modify fun s => { s with snapshots := s.snapshots.insert id (snapshot, madeAt) }
    if let some old := old then endSnapshot old.1
    return true
  | .dropSnapshot id => do
    if let some old := (← get).snapshots.get? id then
      modify fun s => { s with snapshots := s.snapshots.erase id }
      endSnapshot old.1
    return true
  | .newHandle id => do
    let key ← newKey
    let handle ← onQueue (Deferral.Queue.newHandle key)
    let safe ← onQueue do return (← get).isEmpty
    ensure (safe == ((← get).snapshots.size == 0)) .safeToDelete
    let old := (← get).handles.get? id
    modify fun s => { s with handles := s.handles.insert id handle }
    if let some old := old then retireHandle old
    return true
  | .deleteHandle id => do
    if let some handle := (← get).handles.get? id then
      modify fun s => { s with handles := s.handles.erase id }
      retireHandle handle
    return true

/-- Performs one operation and checks everything if it did something. -/
def step (limit : Nat) (op : Op) : TrialM Unit := do
  log (.running op)
  if ← op.perform limit then
    checkNodes
    checkReleases
    checkQueue

/-- Gives up everything that is left, and checks that it is gone. -/
def tearDown : TrialM Unit := do
  let s ← get
  modify fun s => { s with nodes := .empty, handles := .empty, snapshots := .empty }
  s.nodes.values.forM fun live => onHeap (Heap.release live.node)
  s.handles.values.forM endHandle
  s.snapshots.values.forM fun snapshot => endSnapshot snapshot.1
  checkReleases
  ensure (← get).unreleased.isEmpty .allReleased
  let isEmpty ← onQueue do return (← get).isEmpty
  ensure isEmpty .drained
  let stats ← onQueue Deferral.Queue.readStats
  ensure (stats.pending == 0) .nonePending
  orFail (← get).queue.close

def play (limit : Nat) (ops : List Op) : TrialM Unit := do
  log .started
  ops.forM (step limit)
  tearDown

structure Outcome where
  failure : Option Failure
  log : List Line

/-- Runs a trial, with at most `limit` payload bytes at a time. -/
def run (limit : Nat) (ops : List Op) : Outcome :=
  match (play limit ops).run .initial with
  | .ok _ s => ⟨none, s.log.toList⟩
  | .error failure s => ⟨some failure, s.log.toList⟩

end RopeStore.Trial
