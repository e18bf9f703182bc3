import RopeStore.Deferral.Queue
import RopeStore.Sampling.Registry

/-!
# Sampling a value

The record of a sampled value belongs to a handle, so that snapshots can look at it when the value is
no longer sampled. Where the record lies is for the memory to say.

* `Office` : the records, and a queue of the handles that own them;
* `track` : samples a tree from now on;
* `untrack` : ends that, and deletes the handle.
-/

namespace RopeStore.Sampling
variable {ρ α : Type}

/-- All records, and a queue of handles that may own them. -/
structure Office (α : Type) where
  registry : Registry
  queue : Deferral.Queue α

structure Tracked where
  /-- The value, with the address of its record in the slot. -/
  value : Value
  handle : Deferral.EntryId
  id : RecordId
  record : Record

def Office.newRecord (record : Record) : EStateM Fault (Office α) RecordId := fun o =>
  match (Registry.create record).run o.registry with
  | .ok id registry => .ok id { o with registry }
  | .error fault registry => .error fault { o with registry }

def Office.newHandle (payload : α) : EStateM Fault (Office α) Deferral.EntryId := fun o =>
  match (Deferral.Queue.newHandle payload).run o.queue with
  | .ok handle queue => .ok handle { o with queue }
  | .error fault queue => .error fault { o with queue }

/-- Samples the tree `v`, which was made by `method`, from now on. Its record becomes a payload by
`own`, and lies at the address that `place` says. -/
def track (v : Value) (h : Heap ρ) (method : Method) (own : RecordId → α)
    (place : RecordId → UInt64) : EStateM Fault (Office α) Tracked := do
  let record ← ofExcept (begin v h method)
  let id ← Office.newRecord record
  let handle ← Office.newHandle (own id)
  let value ← ofExcept (v.setSample (some (place id)))
  return ⟨value, handle, id, record⟩

/-- Ends the sampling of `v`, whose record at `address` belongs to `handle`. The handle is deleted also
where the slot of `v` does not hold that address, which is a fault. The answer has the payload as well,
if it is to be destroyed now. -/
def untrack (v : Value) (handle : Deferral.EntryId) (address : UInt64) :
    Deferral.QueueM α (Except Fault Value × Option α) := do
  return (finish v address, ← Deferral.Queue.delete handle)

end RopeStore.Sampling
