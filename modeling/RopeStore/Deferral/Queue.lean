import RopeStore.Deferral.Chain

/-!
# Deferred deletion

A snapshot may look at everything that is deleted while it lives. So a handle that is deleted while
there are snapshots joins the chain, and its payload stays until all snapshots are gone that were
made before. A handle that is deleted while the chain is empty loses its payload at once.

The chain and the counters change only in sections under the lock, and payloads are handed out for
destruction when the lock is free again. So the operations are made from these atomic steps:

* `isEmpty` : one look at the newest cell, without the lock;
* `appendSnapshot`, `appendIfWatched`, `removeSnapshot` : the three sections under the lock;
* `takePayload`, `destroy` : the end of one cell.

The operations: `openSnapshot`, `newHandle`, `delete`, `dropSnapshot`, and `close` for the queue
itself.
-/

namespace RopeStore.Deferral.Queue
variable {α : Type}

def onLock (op : EStateM Fault Lock Unit) : QueueM α Unit := fun q =>
  match op.run q.lock with
  | .ok _ lock => .ok () { q with lock }
  | .error fault lock => .error fault { q with lock }

/-- Performs `critical` under the lock, which is free again afterwards, also after a fault. -/
def locked {β : Type} (critical : QueueM α β) : QueueM α β := do
  onLock Lock.acquire
  let result ← try critical
    catch fault =>
      onLock Lock.release
      throw fault
  onLock Lock.release
  return result

def isEmpty (q : Queue α) : Bool := q.newest.isNone

/-! ## Sections under the lock -/

def appendSnapshot (snapshot : EntryId) : QueueM α Unit := link snapshot.serial

/-- The section that puts a deleted handle into the chain, unless the chain has become empty. The
handles that wait are all in memory, so their number cannot leave its word. -/
def appendIfWatched (handle : EntryId) : QueueM α Bool := do
  if (← get).isEmpty then return false
  link handle.serial
  modify fun q => { q with stats := { q.stats with pending := q.stats.pending + 1 } }
  return true

/-- The section that takes a snapshot out of the chain, and counts the handles that leave with
it. -/
def removeSnapshot (snapshot : EntryId) : QueueM α (List EntryId) := do
  let doomed ← unlinkSnapshot snapshot.serial
  let stats := (← get).stats
  let pending ← ofExcept (checkedSub stats.pending doomed.length)
  modify ({ · with stats := { stats with pending } })
  let reclaimed ← ofExcept (checkedAdd stats.reclaimed doomed.length)
  modify ({ · with stats := ⟨pending, reclaimed⟩ })
  doomed.mapM fun serial => ask (·.idOf serial)

/-- Ends a handle and answers with its payload. -/
def takePayload (handle : EntryId) : QueueM α α := do
  match ← destroy handle.serial with
  | .handle payload => return payload
  | .snapshot => throw .dangling

/-! ## Operations -/

def openSnapshot : QueueM α EntryId := do
  let snapshot ← create .snapshot
  locked (appendSnapshot snapshot)
  return snapshot

def newHandle (payload : α) : QueueM α EntryId := create (.handle payload)

/-- Deletes a handle. The answer is the payload if it is to be destroyed now, and `none` if that has
to wait. The look without the lock is repeated under the lock, as the last snapshot may go in
between. -/
def delete (handle : EntryId) : QueueM α (Option α) := do
  unless (← get).isEmpty do
    if ← locked (appendIfWatched handle) then return none
  return some (← takePayload handle)

/-- Drops a snapshot. The answer holds the handles that were waiting only for it, oldest first, with
their payloads, which are to be destroyed in this order. -/
def dropSnapshot (snapshot : EntryId) : QueueM α (List (EntryId × α)) := do
  let doomed ← locked (removeSnapshot snapshot)
  let payloads ← doomed.mapM fun handle => return (handle, ← takePayload handle)
  let _ ← destroy snapshot.serial
  return payloads

/-- Checks that a queue that goes away is empty. -/
def close (q : Queue α) : Except Fault Unit := do
  require .queueDrained q.isEmpty
  if q.stats.pending = 0 then pure () else .error .unequal

end RopeStore.Deferral.Queue
