import RopeStore.Deferral.Inspect
import RopeStore.Heap.Part
import RopeStore.Heap.Release

/-!
# Drills for many threads

Each drill has a number of threads do the same thing a number of times. Its outcome does not depend
on how the threads take turns, so they are played one after the other.
-/

namespace RopeStore.Drill.Threads

def times {σ : Type} (count : Nat) (op : EStateM Fault σ Unit) : EStateM Fault σ Unit :=
  (List.replicate count ()).forM fun _ => op

/-! ## References -/

structure CountOutcome where
  references : Nat
  isOne : Bool
  last : Bool

/-- Every round takes a reference and gives it up again. -/
def count (threads rounds : Nat) : Except Fault CountOutcome :=
  let drill : EStateM Fault RefCount CountOutcome := do
    times (threads * rounds) do
      RefCount.increment
      let _ ← RefCount.decrementExpectHigh
    let c ← get
    return ⟨c.get, c.isOne, ← RefCount.decrement⟩
  match drill.run .fresh with
  | .ok outcome _ => .ok outcome
  | .error fault _ => .error fault

/-! ## Nodes -/

structure NodeOutcome where
  references : Nat
  /-- How often the owner got its bytes back before the last reference was given up. -/
  before : Nat
  /-- How often the owner got its bytes back in all. -/
  after : Nat

/-- How often the owner of external bytes is among the notices. -/
def returns (notices : List (Notice Unit)) : Nat :=
  notices.countP fun
    | .returned .. => true
    | _ => false

/-- Every thread holds a reference to the same external node, and every round makes and gives up a
view of one byte and a reference. -/
def node (threads rounds : Nat) : Except Fault NodeOutcome :=
  let drill : HeapM Unit NodeOutcome := do
    let shared ← Heap.ofOwner [0, 1, 2, 3] ()
    times threads do
      Heap.retain shared
      times rounds do
        let view ← Heap.part shared 1 1
        Heap.retain shared
        Heap.release view
        Heap.release shared
      Heap.release shared
    let references := (← Heap.ask (·.node shared)).refs.get
    let before := returns (← get).notices
    Heap.release shared
    return ⟨references, before, returns (← get).notices⟩
  match drill.run .initial with
  | .ok outcome _ => .ok outcome
  | .error fault _ => .error fault

/-! ## Queues -/

structure QueueOutcome where
  destroyed : Nat
  isEmpty : Bool
  pending : Nat

/-- One round of the drill on a queue, with the number of payloads that it destroys: it makes and
deletes a handle, and every third round has a snapshot around that. -/
def queueRound (round : Nat) : Deferral.QueueM Unit Nat := do
  let handle ← Deferral.Queue.newHandle ()
  if round % 3 = 0 then
    let snapshot ← Deferral.Queue.openSnapshot
    let now ← Deferral.Queue.delete handle
    let later ← Deferral.Queue.dropSnapshot snapshot
    return now.toList.length + later.length
  else return (← Deferral.Queue.delete handle).toList.length

/-- Every thread plays its rounds on the same queue. -/
def queue (threads rounds : Nat) : Except Fault QueueOutcome :=
  let drill : Deferral.QueueM Unit QueueOutcome := do
    let destroyed ← (List.replicate threads (List.range rounds)).flatten.mapM queueRound
    let q ← get
    return ⟨destroyed.foldr (· + ·) 0, q.isEmpty, (← Deferral.Queue.readStats).pending⟩
  match drill.run (Deferral.Queue.new 0 .blocking) with
  | .ok outcome _ => .ok outcome
  | .error fault _ => .error fault

end RopeStore.Drill.Threads
