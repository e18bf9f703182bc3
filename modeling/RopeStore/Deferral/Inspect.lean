import RopeStore.Deferral.Queue

/-!
# Looking at a queue

* `entries` : everything in the chain, newest first;
* `safeHandles` : the deleted handles that a snapshot may look at, oldest first;
* `inspectDeleted` : their payloads, as far as they are of one type;
* `isSafeToInspect` : whether a snapshot may look at a given handle.

All of them work under the lock.
-/

namespace RopeStore.Deferral.Queue
variable {α : Type}

/-- The identities of everything in the chain, newest first. -/
def entries : QueueM α (List EntryId) :=
  locked do (← ask fun q => q.olderWalk q.newest).mapM fun serial => ask (·.idOf serial)

def readStats : QueueM α Stats := locked do return (← get).stats

/-- The cells of the deleted handles behind a snapshot, oldest first. -/
def deletedAfter (q : Queue α) (snapshot : EntryId) : Except Fault (List (EntryId × Cell α)) := do
  let start ← q.cell snapshot.serial
  let behind ← (← q.newerWalk start.newer).mapM fun serial =>
    return (← q.idOf serial, ← q.cell serial)
  pure (behind.filter fun entry => !entry.1.isSnapshot)

/-- The deleted handles that a snapshot may look at, oldest first. -/
def safeHandles (snapshot : EntryId) : QueueM α (List EntryId) :=
  locked do return (← ask (·.deletedAfter snapshot)).map (·.1)

/-- What `select` finds in the payloads of the deleted handles that a snapshot may look at, oldest
first. -/
def inspectDeleted {β : Type} (snapshot : EntryId) (select : α → Option β) : QueueM α (List β) :=
  locked do
    return (← ask (·.deletedAfter snapshot)).filterMap fun entry =>
      match entry.2.content with
      | .handle payload => select payload
      | .snapshot => none

/-- The verdict of a walk from the newest entry on. A handle that comes before the snapshot was
deleted after it was made; one that does not come at all counts as not deleted. -/
def judge (snapshot handle : EntryId) : Bool → List EntryId → Except Fault Bool
  | found, [] => if found then .ok true else .error .snapshotMissing
  | found, entry :: rest =>
    if entry = handle then .ok (!found)
    else judge snapshot handle (found || entry = snapshot) rest

/-- Whether a snapshot may look at `target`. No handle at all is always safe, and a snapshot never
is. -/
def isSafeToInspect (snapshot : EntryId) (target : Option EntryId) : QueueM α Bool := do
  match target with
  | none => return true
  | some handle =>
    if handle.isSnapshot then return false
    locked do
      let chain ← (← ask fun q => q.olderWalk q.newest).mapM fun serial => ask (·.idOf serial)
      ofExcept (judge snapshot handle false chain)

end RopeStore.Deferral.Queue
