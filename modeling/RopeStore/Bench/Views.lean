import RopeStore.Bench.Samples
import RopeStore.Heap.Part

/-!
# What can be seen of the objects of a bench

Looking at a node asks for its kind, its bytes and its text, in this order; looking at a value for
bytes and text. A malformed node leaves a line in the log every time.
-/

namespace RopeStore.Bench
open Sampling (RecordId)

def World.namesOf (w : World) (id : NodeId) : List String := w.nodes.keysWhere (· == id)

def viewNode (id : NodeId) : BenchM NodeView := do
  let n ← onHeap (Heap.ask (·.node id))
  let kind ← tryHeap (Heap.ask fun _ => n.body.kind)
  let bytes ← tryHeap (Heap.ask (·.bytes id))
  let text ← tryHeap (Heap.ask (·.describe id))
  let capacity ← orComplain n.body.capacity
  let w ← get
  let view := n.body.view?.map fun (start, child) => ⟨start, n.body.length, w.namesOf child⟩
  return { kind, tag := n.body.tag, length := n.body.length, refs := n.refs, capacity, view, bytes,
           text }

def viewTree (v : Value) (root : NodeId) : BenchM TreeView := do
  let n ← onHeap (Heap.ask (·.node root))
  let sampled ← orComplain v.isSampled
  let address ← orComplain v.sample
  let w ← get
  let sample := address.bind fun address => w.recordNames[(RecordId.ofAddress address).index]?
  return { root := w.namesOf root, rootRefs := n.refs.get, sampled, sample }

def viewValue (v : Value) : BenchM ValueView := do
  let length ← onHeap (Heap.ask v.length)
  let tree ← v.root?.mapM (viewTree v)
  let bytes ← tryHeap (Heap.ask v.bytes)
  let text ← tryHeap (Heap.ask v.describe)
  return { isTree := v.isTree, length, short := v.shortBytes?, tree, bytes, text }

def viewQueue (number : Nat) : BenchM QueueView := do
  let isEmpty ← onQueue number do return (← get).isEmpty
  let stats ← onQueue number Deferral.Queue.readStats
  let entries ← onQueue number Deferral.Queue.entries
  return { isEmpty, stats, entries := entries.map (← get).nameOf }

/-- The queue that a focus points to: the one in which the snapshot or else the handle was last
made, or the one that is named. -/
def Focus.queueNumber? (focus : Focus) (w : World) : Option Nat :=
  match focus.snapshot.or focus.handle with
  | some name => (w.known.get? name).map (·.queue)
  | none => focus.queue.bind w.queueNumbers.get?

def Focus.look (focus : Focus) : BenchM Look := do
  let node ← (focus.node.bind (← get).nodes.get?).mapM viewNode
  let value ← (focus.value.bind (← get).values.get?).mapM viewValue
  let w ← get
  let record := (focus.record.bind w.recordNamed?).bind w.registry.find?
  let tracker := focus.tracker.bind w.trackers.get?
  let queue ← (focus.queueNumber? w).mapM viewQueue
  return { node, value, record, tracker, queue }

end RopeStore.Bench
