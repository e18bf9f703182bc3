import RopeStore.Heap.Store

/-!
# Nodes made by hand

Nodes that the operations of a heap never make, to see how it treats them. They have one reference
and pass no check.
-/

namespace RopeStore.Heap
variable {ρ : Type}

/-- A node with a tag that names no kind. -/
def forge (tag : UInt8) (length : Nat) : HeapM ρ NodeId := allocateFresh (.malformed tag length)

/-- A view that need not lie in its child, and whose child may be anything. It takes over a
reference to the child. -/
def forgeView (child : NodeId) (start length : Nat) : HeapM ρ NodeId :=
  allocateFresh (.view start length child)

end RopeStore.Heap
