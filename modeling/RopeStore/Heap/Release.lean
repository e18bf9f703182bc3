import RopeStore.Heap.Store

/-!
# Giving up references

`release` gives up one reference. The last one destroys the node: a buffer gives its allocation
back, the bytes of an external node return to their keeper, and a view gives up its reference to its
child, which may destroy that in turn. The first two leave a notice, so one release
leaves at most one.

The depth of the recursion is explicit: `releaseWithin d` follows at most `d` nodes.
-/

namespace RopeStore.Heap
variable {ρ : Type}

/-- Gives up one reference to node `id`, following at most `depth` nodes. -/
def releaseWithin : Nat → NodeId → HeapM ρ Unit
  | 0, _ => throw .dangling
  | depth + 1, id => do
    if ← onCount id RefCount.decrementExpectHigh then return
    match ← ask (·.body id) with
    | .buffer tag _ =>
      note (.freed (SizeClass.sizeFor tag))
      attempt (require .bufferTag (SizeClass.isBuffer tag))
      discard id
    | .external _ .permanent => throw .immortalDestroyed
    | .external bytes keeper =>
      note (.returned bytes keeper)
      discard id
    | .view _ _ child =>
      discard id
      releaseWithin depth child
    | .malformed tag _ => attempt (.error (.malformedTag tag))

def release (id : NodeId) : HeapM ρ Unit := do releaseWithin (← get).nodes.size id

end RopeStore.Heap
