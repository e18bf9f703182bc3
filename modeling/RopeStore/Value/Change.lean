import RopeStore.Value.Basic
import RopeStore.Heap.Create
import RopeStore.Heap.Release

/-!
# Changing values

* `setSize`, `writeAt`, `setRoot`, `takeRoot` : changes of the sixteen bytes alone;
* `ValueM` : changes of a value together with the heap that its root lives in;
* `setBytes`, `makeTree`, `clear`, `drop` : changes that give up the root of a tree. The root is
  given up before the new form is written, and the value is empty in between;
* `copy`, `clone` : values that take a reference of their own.

What an operation did before a fault stays done.
-/

namespace RopeStore.Value
variable {ρ : Type}

/-! ## Changes of the bytes alone -/

def payload (v : Value) : Except Fault (Vector UInt8 15) :=
  match v.payload? with
  | some payload => .ok payload
  | none => .error .payloadOfTree

/-- Writes `data` into the payload of a short value from `start` on; the size stays as it is. -/
def writeAt (v : Value) (start : Nat) (data : List UInt8) : Except Fault Value := do
  let old ← v.payload
  if start + data.length ≤ maxShort then
    pure (.short v.control (Vector.ofFn fun i =>
      if start ≤ i then data.getD (i - start) old[i] else old[i]))
  else .error .outOfBounds

/-- Sets the size of a short value and poisons the payload behind it. -/
def setSize (v : Value) (size : Nat) : Except Fault Value :=
  match v.payload? with
  | none => .error .sizeOfTree
  | some old =>
    if size ≤ maxShort then
      .ok (.short (controlFor size) (Vector.ofFn fun i => if i < size then old[i] else poison))
    else .error (.sizeTooLarge size)

/-- Puts another root into a tree and keeps its slot. The answer holds the old root, whose reference
goes to the caller. -/
def setRoot (v : Value) (root : NodeId) : Except Fault (NodeId × Value) :=
  match v with
  | .short .. => .error .rootOfShort
  | .tree slot old => if v.isTree then .ok (old, .tree slot root) else .error .rootOfShort

/-- Takes the root out of a tree and leaves an empty value; a short value stays as it is. -/
def takeRoot (v : Value) : Option NodeId × Value :=
  match v.root? with
  | some root => (some root, cleared)
  | none => (none, v)

/-! ## Changes that give up a root -/

/-- A value and the heap that its root lives in. -/
structure Held (ρ : Type) where
  heap : Heap ρ
  value : Value

abbrev ValueM (ρ : Type) := EStateM Fault (Held ρ)

def onHeap {α : Type} (op : HeapM ρ α) : ValueM ρ α := fun s =>
  match op.run s.heap with
  | .ok a heap => .ok a { s with heap }
  | .error fault heap => .error fault { s with heap }

/-- Goes on with the answer of a change of the bytes alone; a fault leaves them as they were. -/
def put (change : Except Fault Value) : ValueM ρ Unit := do
  let value ← ofExcept change
  modify ({ · with value })

/-- Gives up the root of a tree and leaves an empty value. -/
def dropRoot : ValueM ρ Unit := do
  let (root, value) := (← get).value.takeRoot
  modify ({ · with value })
  if let some root := root then onHeap (Heap.release root)

def setBytes (data : List UInt8) : ValueM ρ Unit := do
  dropRoot
  put (ofShort data)

/-- Performs `op`, to which a reference to node `root` is handed over. If `op` faults, the reference
is given up after the fault. -/
def handingOver {α : Type} (root : NodeId) (op : ValueM ρ α) : ValueM ρ α := do
  try op
  catch fault =>
    onHeap (Heap.release root)
    throw fault

/-- Replaces the value by the tree of `root`, whose reference is handed over. -/
def makeTree (root : NodeId) : ValueM ρ Unit :=
  handingOver root do
    dropRoot
    put (pure (ofTree root))

/-- Puts another root into a tree. The reference to the new root is handed over, and the one to the
old root goes to the caller. -/
def replaceRoot (root : NodeId) : ValueM ρ NodeId :=
  handingOver root do
    let (old, value) ← ofExcept ((← get).value.setRoot root)
    modify ({ · with value })
    return old

/-- Takes the root out of a tree; its reference goes to the caller. -/
def extractRoot : ValueM ρ (Option NodeId) := do
  let (root, value) := (← get).value.takeRoot
  modify ({ · with value })
  return root

def clear : ValueM ρ Unit := do
  dropRoot
  put (ofShort [])

def drop : ValueM ρ Unit := dropRoot

/-! ## Values with a reference of their own -/

/-- A copy of `data`: a short value if it fits, and otherwise a tree over a new node. -/
def copy (data : List UInt8) : HeapM ρ Value := do
  if data.length ≤ maxShort then Heap.attempt (ofShort data)
  else return ofTree (← Heap.ofBytes data)

/-- A second value with the same bytes. The clone of a tree shares its root and is not sampled; the
clone of a short value has its unused bytes too. -/
def clone (v : Value) : HeapM ρ Value := do
  match v.root? with
  | some root =>
    Heap.retain root
    return ofTree root
  | none => return v

end RopeStore.Value
