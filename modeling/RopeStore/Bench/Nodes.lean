import RopeStore.Bench.Shelf
import RopeStore.Heap.Forged
import RopeStore.Heap.Part

/-!
# Steps on nodes
-/

namespace RopeStore.Bench

def Data.read : Data → BenchM (List UInt8)
  | .bytes given => return given
  | .ofNode name => do
    let id ← nodes.find name
    onHeap (Heap.ask (·.bytes id))

def RootArg.pass (root : RootArg) : BenchM NodeId := do
  if root.move then nodes.take root.name
  else
    let id ← nodes.find root.name
    onHeap (Heap.retain id)
    return id

def makeNode (name : String) (op : HeapM Owner NodeId) : BenchM Answer := do
  nodes.store name (← onHeap op)
  return .nothing

def NodeAction.perform : NodeAction → BenchM Answer
  | .buffer name length => makeNode name (Heap.newBuffer length)
  | .largeBuffer name length => makeNode name (Heap.newLargeBuffer length)
  | .copy name data => do makeNode name (Heap.ofBytes (← data.read))
  | .copyWithExtra name data extra => do makeNode name (Heap.bufferWithExtra (← data.read) extra)
  | .ofOwner name data block => do
    makeNode name (Heap.ofOwner (← data.read) ⟨name, .dropped, block⟩)
  | .ofExternal name data withBytes block => do
    let style := if withBytes then .calledWithBytes else .called
    makeNode name (Heap.ofOwner (← data.read) ⟨name, style, block⟩)
  | .ofStatic name data => do
    let bytes ← data.read
    makeNode name do Heap.ofStatic (← Heap.newStatic bytes)
  | .empty name => makeNode name Heap.empty
  | .part name source pos count => do
    let id ← nodes.find source
    makeNode name (Heap.part id pos count)
  | .partOrCopy name source pos count => do
    let id ← nodes.find source
    makeNode name (Heap.partOrCopy id pos count)
  | .clone name source => do
    let id ← nodes.find source
    makeNode name do
      Heap.retain id
      return id
  | .child name source => do
    let id ← nodes.find source
    match (← onHeap (Heap.ask (·.body id))).view? with
    | none => return .flag false
    | some (_, inner) =>
      onHeap (Heap.retain inner)
      nodes.store name inner
      return .flag true
  | .append name data => do
    let bytes ← data.read
    let id ← nodes.take name
    let outcome ← tryHeap (Heap.append id bytes)
    nodes.store name id
    return .number (← orComplain outcome)
  | .same name other => do
    let a ← nodes.find name
    let b ← nodes.find other
    return .flag (a == b)
  | .drop name => do
    nodes.drop name
    return .nothing
  | .intoRaw name raw => do
    raws.store raw (← nodes.take name)
    return .nothing
  | .ofRaw name raw => do
    nodes.store name (← raws.take raw)
    return .nothing
  | .forge name tag length => makeNode name (Heap.forge tag length)
  | .forgeView name inner start length => do
    let id ← inner.pass
    makeNode name (Heap.forgeView id start length)

end RopeStore.Bench
