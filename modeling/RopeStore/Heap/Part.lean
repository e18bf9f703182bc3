import RopeStore.Heap.Bytes
import RopeStore.Heap.Create

/-!
# Parts of a node

* `part` : a node for some of the bytes of another one. All of its bytes are the node itself with
  one more reference; fewer are a view. A part of a view is a view of that view's child, so a view
  never has a view for its child.
* `partOrCopy` : the same, but few bytes are copied, so that they do not keep the whole node alive.
-/

namespace RopeStore.Heap
variable {ρ : Type}

/-- Parts of at most this many bytes are copied by `partOrCopy`. -/
def copyLimit : Nat := 511

/-- Whether `count` bytes at `pos` are a part of `length` bytes that is not empty. -/
def checkPart (length pos count : Nat) : Except Fault Unit :=
  if 0 < count ∧ pos < length ∧ count ≤ length - pos then .ok ()
  else .error (.badPart count pos length)

def checkView (child : Body ρ) (start count : Nat) : Except Fault Unit := do
  match ← child.kind with
  | .buffer | .external => pure ()
  | .view => .error .viewOverView
  require .properPart (decide (0 < count ∧ count < child.length))
  let last ← checkedSub child.length count
  require .startInside (decide (start ≤ last))

/-- A view of `count` bytes of `child` from `start` on, which takes a reference to `child`. -/
def newView (child : NodeId) (start count : Nat) : HeapM ρ NodeId := do
  attempt (checkView (← ask (·.body child)) start count)
  retain child
  allocateFresh (.view start count child)

/-- A node for the `count` bytes of node `id` from `pos` on. -/
def part (id : NodeId) (pos count : Nat) : HeapM ρ NodeId := do
  let body ← ask (·.body id)
  attempt (checkPart body.length pos count)
  if count = body.length then
    retain id
    return id
  match body with
  | .view start _ child => newView child (← attempt (checkedAdd start pos)) count
  | _ => newView id pos count

/-- A node for the `count` bytes of node `id` from `pos` on, a copy if they are few and not all. -/
def partOrCopy (id : NodeId) (pos count : Nat) : HeapM ρ NodeId := do
  let length ← ask (·.length id)
  if count = length ∨ copyLimit < count then part id pos count
  else
    attempt (checkPart length pos count)
    ofBytes (← ask fun h => do slice (← h.bytes id) pos count)

end RopeStore.Heap
