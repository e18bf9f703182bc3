import RopeStore.Heap.Store

/-!
# Making nodes

* `newBuffer`, `newLargeBuffer` : empty buffers with room for a number of bytes, which is raised to
  the least and cut to the greatest payload;
* `append` : fills up a buffer that has one reference, and nothing else;
* `ofBytes` : a copy of some bytes, in the smallest kind of node that can hold them;
* `bufferWithExtra` : a buffer with given bytes and room for more;
* `ofOwner` : a node over bytes that someone else owns;
* `newStatic`, `ofStatic`, `empty` : nodes that live for ever.
-/

namespace RopeStore.Heap
variable {ρ : Type}

/-! ## Buffers -/

/-- An empty buffer with room for `length` bytes, or for `limit` if that is less. -/
def newBufferWithin (limit length : Nat) : HeapM ρ NodeId := do
  let length := max SizeClass.minLength (min length limit)
  let size ← attempt (checkedAdd length SizeClass.headerSize)
  let tag ← attempt (SizeClass.roundUp size >>= SizeClass.tagFor)
  attempt (require .bufferTag (SizeClass.isBuffer tag))
  allocateFresh (.buffer tag [])

/-- An empty buffer of a regular size class. -/
def newBuffer (length : Nat) : HeapM ρ NodeId := newBufferWithin SizeClass.maxLength length

/-- An empty buffer of any size class. -/
def newLargeBuffer (length : Nat) : HeapM ρ NodeId :=
  newBufferWithin SizeClass.maxLargeLength length

/-- Appends as much of `data` as fits into the buffer `id` and answers with the number of bytes
appended. Only a buffer that has one reference is written to. -/
def append (id : NodeId) (data : List UInt8) : HeapM ρ Nat := do
  let n ← ask (·.node id)
  match n.body with
  | .buffer tag bytes =>
    if n.refs.isOne then
      let capacity ← attempt (SizeClass.capacityFor tag)
      let room ← attempt (checkedSub capacity bytes.length)
      let count := min data.length room
      replace id { n with body := .buffer tag (bytes ++ data.take count) }
      return count
    else return 0
  | _ => return 0

def fill (id : NodeId) (data : List UInt8) : HeapM ρ NodeId := do
  let written ← append id data
  if written = data.length then return id else throw .unequal

/-! ## External nodes -/

def ofOwner (bytes : List UInt8) (owner : ρ) : HeapM ρ NodeId :=
  allocateFresh (.external bytes (.lent owner))

/-- A node over `bytes` that lives for ever, without references yet. -/
def newStatic (bytes : List UInt8) : HeapM ρ NodeId :=
  allocate ⟨.immortal, .external bytes .permanent⟩

def ofStatic (id : NodeId) : HeapM ρ NodeId := do
  let n ← ask (·.node id)
  attempt (require .immortalCount n.refs.isImmortal)
  retain id
  return id

def empty : HeapM ρ NodeId := ofStatic emptyId

/-! ## Copies -/

/-- A copy of `data`: in a regular buffer, in a large one if it needs that, and in an external node
of its own if it is too long for either. -/
def ofBytes (data : List UInt8) : HeapM ρ NodeId := do
  if data.length ≤ SizeClass.maxLength then fill (← newBuffer data.length) data
  else if data.length ≤ SizeClass.maxLargeLength then fill (← newLargeBuffer data.length) data
  else allocateFresh (.external data .copied)

/-- A buffer that holds `data` and has room for `extra` bytes more, as far as a regular buffer
has. -/
def bufferWithExtra (data : List UInt8) (extra : Nat) : HeapM ρ NodeId := do
  if data.length ≤ SizeClass.maxLength then
    let id ← newBuffer (min (data.length + extra) (wordBound - 1))
    let n ← ask (·.node id)
    replace id { n with body := .buffer n.body.tag data }
    return id
  else throw (.bufferTooSmall data.length)

end RopeStore.Heap
