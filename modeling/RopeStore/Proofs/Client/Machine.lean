import Mathlib.Data.List.Basic
import RopeStore.Proofs.Value.Roots

/-!
# Clients of a heap

A client holds references to nodes in three places: as such, as raw pointers, and as roots of its
values. It may do to them what the owner of a reference may do, in any order.

* `Client` : a heap and what a client holds of it; `born` remembers every node as it was made;
* `Act` : what a client can do. Things are named by their positions, and an act that names what is
  not there does nothing;
* `Client.step`, `Client.run` : one act and a list of acts. A call that faults is over, what it did
  before the fault stays done, and what was handed over to it is given up;
* `Client.owners` : how many own a node.
-/

namespace RopeStore

/-- Bytes, at most as many as a word can count. -/
abbrev Bytes := { bytes : List UInt8 // bytes.length < wordBound }

/-- A heap and what a client holds of it. -/
structure Client (ρ : Type) where
  heap : Heap ρ
  refs : List NodeId
  /-- The references that were turned into raw pointers and not taken back. -/
  raws : List NodeId
  values : List Value
  /-- The nodes that the client made to live for ever. -/
  statics : List NodeId
  /-- The body that each node had after the act that made it. -/
  born : List (Option (Body ρ))

/-- A node that can be looked at without owning it. -/
inductive Place
  | ref (i : Nat)
  | root (i : Nat)
  | child (of : Place)

/-- What a client can do. Things are named by their positions. -/
inductive Act (ρ : Type)
  | newBuffer (length : Nat)
  | newLargeBuffer (length : Nat)
  | ofBytes (data : Bytes)
  | bufferWithExtra (data : Bytes) (extra : Nat)
  | lend (bytes : Bytes) (owner : ρ)
  | newStatic (bytes : Bytes)
  | ofStatic (i : Nat)
  | empty
  | part (of : Place) (pos count : Nat)
  | partOrCopy (of : Place) (pos count : Nat)
  | append (i : Nat) (data : Bytes)
  | clone (of : Place)
  | drop (i : Nat)
  | intoRaw (i : Nat)
  | fromRaw (i : Nat)
  | newValue
  | shortValue (data : Bytes)
  /-- Makes a tree; reference number `i` moves into it. -/
  | treeValue (i : Nat)
  | copyValue (data : Bytes)
  | cloneValue (i : Nat)
  | dropValue (i : Nat)
  | setBytes (i : Nat) (data : Bytes)
  /-- Replaces value number `i` by a tree; reference number `j` moves into it. -/
  | makeTree (i j : Nat)
  /-- Replaces the root of value number `i` by reference number `j`, and keeps the old root. -/
  | replaceRoot (i j : Nat)
  | extractRoot (i : Nat)
  | clear (i : Nat)

namespace Client
variable {ρ : Type}

def initial : Client ρ := ⟨Heap.initial, [], [], [], [], [some (.external [] .permanent)]⟩

/-! ## What is held -/

def held (c : Client ρ) : List NodeId := c.refs ++ (c.raws ++ c.values.flatMap Value.roots)

/-- How many own the node `id`: the references, the raw pointers, the values whose root it is, and
the live views whose child it is. -/
def owners (c : Client ρ) (id : NodeId) : Nat :=
  c.refs.count id + c.raws.count id + (c.values.flatMap Value.roots).count id + c.heap.viewsOver id

/-- The body that node `id` had after the act that made it. -/
def birth? (c : Client ρ) (id : NodeId) : Option (Body ρ) := c.born[id.index]?.join

def find? (c : Client ρ) : Place → Option NodeId
  | .ref i => c.refs[i]?
  | .root i => c.values[i]?.bind Value.root?
  | .child of => (c.find? of).bind fun id => (c.heap.body? id).bind Body.child?

/-! ## Kinds of acts -/

/-- Keeps the reference that `op` makes. -/
def keep (c : Client ρ) (op : HeapM ρ NodeId) : Client ρ :=
  match op.run c.heap with
  | .ok id heap => { c with heap, refs := c.refs ++ [id] }
  | .error _ heap => { c with heap }

def keepValue (c : Client ρ) (op : HeapM ρ Value) : Client ρ :=
  match op.run c.heap with
  | .ok v heap => { c with heap, values := c.values ++ [v] }
  | .error _ heap => { c with heap }

def perform {α : Type} (c : Client ρ) (op : HeapM ρ α) : Client ρ :=
  match op.run c.heap with
  | .ok _ heap => { c with heap }
  | .error _ heap => { c with heap }

/-- Performs `op` on value number `i`, which is `v`, and keeps the references that it hands out. -/
def change {α : Type} (c : Client ρ) (i : Nat) (v : Value) (op : Value.ValueM ρ α)
    (handed : α → List NodeId) : Client ρ :=
  match op.run ⟨c.heap, v⟩ with
  | .ok a s => { c with heap := s.heap, values := c.values.set i s.value, refs := c.refs ++ handed a }
  | .error _ s => { c with heap := s.heap, values := c.values.set i s.value }

/-- Performs `use` on reference number `i`, which the client does not hold any more. -/
def spend (c : Client ρ) (i : Nat) (use : Client ρ → NodeId → Client ρ) : Client ρ :=
  c.refs[i]?.elim c fun id => use { c with refs := c.refs.eraseIdx i } id

def act (c : Client ρ) : Act ρ → Client ρ
  | .newBuffer length => c.keep (Heap.newBuffer length)
  | .newLargeBuffer length => c.keep (Heap.newLargeBuffer length)
  | .ofBytes data => c.keep (Heap.ofBytes data)
  | .bufferWithExtra data extra => c.keep (Heap.bufferWithExtra data extra)
  | .lend bytes owner => c.keep (Heap.ofOwner bytes owner)
  | .newStatic bytes =>
    match (Heap.newStatic bytes).run c.heap with
    | .ok id heap => { c with heap, statics := c.statics ++ [id] }
    | .error _ heap => { c with heap }
  | .ofStatic i => c.statics[i]?.elim c fun id => c.keep (Heap.ofStatic id)
  | .empty => c.keep Heap.empty
  | .part of pos count => (c.find? of).elim c fun id => c.keep (Heap.part id pos count)
  | .partOrCopy of pos count => (c.find? of).elim c fun id => c.keep (Heap.partOrCopy id pos count)
  | .append i data => c.refs[i]?.elim c fun id => c.perform (Heap.append id data)
  | .clone of => (c.find? of).elim c fun id => c.keep (do Heap.retain id; return id)
  | .drop i => c.spend i fun c id => c.perform (Heap.release id)
  | .intoRaw i => c.spend i fun c id => { c with raws := c.raws ++ [id] }
  | .fromRaw i =>
    c.raws[i]?.elim c fun id => { c with raws := c.raws.eraseIdx i, refs := c.refs ++ [id] }
  | .newValue => { c with values := c.values ++ [Value.new] }
  | .shortValue data =>
    match Value.ofShort data with
    | .ok v => { c with values := c.values ++ [v] }
    | .error _ => c
  | .treeValue i => c.spend i fun c id => { c with values := c.values ++ [Value.ofTree id] }
  | .copyValue data => c.keepValue (Value.copy data)
  | .cloneValue i => c.values[i]?.elim c fun v => c.keepValue (Value.clone v)
  | .dropValue i =>
    c.values[i]?.elim c fun v =>
      match Value.drop.run ⟨c.heap, v⟩ with
      | .ok _ s => { c with heap := s.heap, values := c.values.eraseIdx i }
      | .error _ s => { c with heap := s.heap, values := c.values.eraseIdx i }
  | .setBytes i data => c.values[i]?.elim c fun v => c.change i v (Value.setBytes data) fun _ => []
  | .makeTree i j =>
    c.values[i]?.elim c fun v =>
      c.spend j fun c root => c.change i v (Value.makeTree root) fun _ => []
  | .replaceRoot i j =>
    c.values[i]?.elim c fun v =>
      c.spend j fun c root => c.change i v (Value.replaceRoot root) fun old => [old]
  | .extractRoot i =>
    c.values[i]?.elim c fun v => c.change i v Value.extractRoot fun root => root.toList
  | .clear i => c.values[i]?.elim c fun v => c.change i v Value.clear fun _ => []

/-- The bodies of the nodes that were made on the way from `h` to `h'`. -/
def newcomers (h h' : Heap ρ) : List (Option (Body ρ)) :=
  (List.range' h.nodes.size (h'.nodes.size - h.nodes.size)).map fun i => h'.body? ⟨i⟩

/-- One act, with a note of what it made. -/
def step (c : Client ρ) (a : Act ρ) : Client ρ :=
  { c.act a with born := c.born ++ newcomers c.heap (c.act a).heap }

/-- All acts in their order, begun with nothing. -/
def run (acts : List (Act ρ)) : Client ρ := acts.foldl step initial

theorem run_concat (acts : List (Act ρ)) (a : Act ρ) : run (acts ++ [a]) = (run acts).step a := by
  rw [run, List.foldl_append]
  rfl

theorem owners_eq (c : Client ρ) (id : NodeId) :
    c.owners id = c.held.count id + c.heap.viewsOver id := by
  rw [owners, held, List.count_append, List.count_append]
  omega

end Client
end RopeStore
