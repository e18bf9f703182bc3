import RopeStore.Heap.Store

/-!
# The bytes of a node

The bytes of a view are cut out of the bytes of its child. The depth of that recursion is explicit:
`bytesWithin d` follows at most `d` nodes, and `bytes` allows as many as the heap has.
-/

namespace RopeStore

/-- The `count` bytes from `start` on, a fault if there are not as many. -/
def slice (bytes : List UInt8) (start count : Nat) : Except Fault (List UInt8) :=
  if start ≤ bytes.length ∧ count ≤ bytes.length - start then .ok ((bytes.drop start).take count)
  else .error .outOfBounds

namespace Heap
variable {ρ : Type}

/-- The bytes of node `id`, found by following at most `depth` nodes. -/
def bytesWithin (h : Heap ρ) : Nat → NodeId → Except Fault (List UInt8)
  | 0, _ => .error .dangling
  | depth + 1, id => do
    match ← h.body id with
    | .buffer _ bytes => pure bytes
    | .external bytes _ => pure bytes
    | .view start length child => slice (← h.bytesWithin depth child) start length
    | .malformed tag _ => .error (.malformedTag tag)

def bytes (h : Heap ρ) (id : NodeId) : Except Fault (List UInt8) := h.bytesWithin h.nodes.size id

/-- The text of node `id`: kind, length, start if it is a view, and count. -/
def describe (h : Heap ρ) (id : NodeId) : Except Fault String := do
  let n ← h.node id
  let kind ← n.body.kind
  let start := match n.body.view? with
    | some (start, _) => s!", start: {start}"
    | none => ""
  pure (s!"NodeRef \x7b kind: {kind.name}, len: {n.body.length}" ++ start ++
    s!", refcount: {n.refs.compact} \x7d")

end Heap
end RopeStore
