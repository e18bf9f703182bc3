import RopeStore.Arena
import RopeStore.Heap.Node

/-!
# The node heap

* `Heap` : the nodes, each at its identity, and the notices that were not yet read; node 0 is
  `Heap.emptyId`, the shared empty node that lives for ever;
* `Heap.find?` : the view of a heap through which everything else reads it;
* `HeapM` : steps on a heap that may fault and keep what they did before the fault;
* `allocate`, `replace`, `discard`, `onCount`, `note` : the only steps that write to a heap;
* `run_allocate`, `run_replace`, `run_discard`, `run_note`, `run_drain` : what each of them leaves, so
  that `find?` after it is a fact about arenas.
-/

namespace RopeStore

/-- Nodes and what happened to them. -/
structure Heap (ρ : Type) where
  nodes : Arena (Node ρ)
  notices : List (Notice ρ)

abbrev HeapM (ρ : Type) := EStateM Fault (Heap ρ)

namespace Heap
variable {ρ : Type}

/-- The shared empty node. -/
def emptyId : NodeId := ⟨0⟩

def initial : Heap ρ := ⟨Arena.empty.push ⟨.immortal, .external [] .permanent⟩, []⟩

/-! ## Reading -/

def find? (h : Heap ρ) (id : NodeId) : Option (Node ρ) := h.nodes.get? id.index

/-- The live node `id`, a fault if it is gone. -/
def node (h : Heap ρ) (id : NodeId) : Except Fault (Node ρ) :=
  match h.find? id with
  | some n => .ok n
  | none => .error .dangling

theorem node_eq_ok_iff {h : Heap ρ} {id : NodeId} {n : Node ρ} :
    h.node id = .ok n ↔ h.find? id = some n := by
  cases found : h.find? id <;> simp [node, found]

def body (h : Heap ρ) (id : NodeId) : Except Fault (Body ρ) := return (← h.node id).body

def length (h : Heap ρ) (id : NodeId) : Except Fault Nat := return (← h.node id).body.length

/-! ## Writing -/

def note (n : Notice ρ) : HeapM ρ Unit := modify fun h => { h with notices := h.notices ++ [n] }

/-- Goes on with the answer of `outcome`, or stops with its fault, which leaves its notice. -/
def attempt {α : Type} : Except Fault α → HeapM ρ α
  | .ok a => return a
  | .error fault => do
    if let some n := Notice.ofFault? fault then note n
    throw fault

/-- Goes on with what `read` finds in the heap. -/
def ask {α : Type} (read : Heap ρ → Except Fault α) : HeapM ρ α := do attempt (read (← get))

def allocate (n : Node ρ) : HeapM ρ NodeId :=
  modifyGet fun h => (⟨h.nodes.size⟩, { h with nodes := h.nodes.push n })

def allocateFresh (body : Body ρ) : HeapM ρ NodeId := allocate ⟨.fresh, body⟩

def replace (id : NodeId) (n : Node ρ) : HeapM ρ Unit :=
  modify fun h => { h with nodes := h.nodes.set id.index n }

def discard (id : NodeId) : HeapM ρ Unit :=
  modify fun h => { h with nodes := h.nodes.erase id.index }

/-- Performs `op` on the count of node `id`. What `op` did to the count stays done if it faults. -/
def onCount {α : Type} (id : NodeId) (op : EStateM Fault RefCount α) : HeapM ρ α := do
  let n ← ask (·.node id)
  match op.run n.refs with
  | .ok a refs =>
    replace id { n with refs }
    return a
  | .error fault refs =>
    replace id { n with refs }
    throw fault

def retain (id : NodeId) : HeapM ρ Unit := onCount id RefCount.increment

/-- Hands out the notices that were not yet read. -/
def drain : HeapM ρ (List (Notice ρ)) := modifyGet fun h => (h.notices, { h with notices := [] })

/-! ## What the steps leave -/

@[simp] theorem run_allocate (h : Heap ρ) (n : Node ρ) :
    (allocate n).run h = .ok ⟨h.nodes.size⟩ { h with nodes := h.nodes.push n } := rfl

@[simp] theorem run_replace (h : Heap ρ) (id : NodeId) (n : Node ρ) :
    (replace id n).run h = .ok () { h with nodes := h.nodes.set id.index n } := rfl

@[simp] theorem run_discard (h : Heap ρ) (id : NodeId) :
    (discard id).run h = .ok () { h with nodes := h.nodes.erase id.index } := rfl

@[simp] theorem run_note (h : Heap ρ) (n : Notice ρ) :
    (note n).run h = .ok () { h with notices := h.notices ++ [n] } := rfl

@[simp] theorem run_drain (h : Heap ρ) :
    drain.run h = .ok h.notices { h with notices := [] } := rfl

theorem run_ask_of_eq_ok {α : Type} {h : Heap ρ} {read : Heap ρ → Except Fault α} {a : α}
    (found : read h = .ok a) : (ask read).run h = .ok a h := by
  show (attempt (read h)).run h = .ok a h
  rw [found]
  rfl

end Heap
end RopeStore
