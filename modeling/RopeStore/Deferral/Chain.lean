import RopeStore.Arena
import RopeStore.Lock

/-!
# Chains of snapshots and deleted handles

A queue keeps its entries in a doubly linked chain, the oldest at one end and the newest at the
other. Every cell names its neighbours by their serial numbers, and the queue names the newest cell.

* `Queue.link` : puts a cell behind the newest one;
* `Queue.unlinkSnapshot` : takes a snapshot out of the chain, and with the oldest one all deleted
  handles between it and the next snapshot;
* `Queue.olderWalk`, `Queue.newerWalk` : the cells met on the way along the chain. A walk takes at
  most as many steps as there were ever cells;
* `Queue.run_create`, `Queue.run_alter`, `Queue.run_destroy` : what the steps on a cell leave.
-/

namespace RopeStore.Deferral

/-- The identity of a snapshot or a handle. Identities are never used twice. -/
structure EntryId where
  queue : Nat
  serial : Nat
  isSnapshot : Bool
  deriving DecidableEq, Repr

/-- What a cell stands for, with `α` for the payloads of handles. -/
inductive Content (α : Type)
  | snapshot
  | handle (payload : α)
  deriving DecidableEq, Repr

def Content.isSnapshot {α : Type} : Content α → Bool
  | .snapshot => true
  | .handle _ => false

/-- A snapshot or a handle, with its neighbours once it is in the chain. -/
structure Cell (α : Type) where
  content : Content α
  older : Option Nat
  newer : Option Nat
  deriving DecidableEq, Repr

structure Stats where
  pending : Nat
  /-- The deleted handles that were in the chain and have left it. -/
  reclaimed : Nat
  deriving DecidableEq, Repr

/-- A queue of snapshots and deleted handles. -/
structure Queue (α : Type) where
  number : Nat
  lock : Lock
  stats : Stats
  newest : Option Nat
  cells : Arena (Cell α)

abbrev QueueM (α : Type) := EStateM Fault (Queue α)

namespace Queue
variable {α : Type}

def new (number : Nat) (kind : LockKind) : Queue α := ⟨number, .free kind, ⟨0, 0⟩, none, .empty⟩

/-! ## Cells -/

def cell? (q : Queue α) (serial : Nat) : Option (Cell α) := q.cells.get? serial

/-- The cell `serial`, a fault if it is gone. -/
def cell (q : Queue α) (serial : Nat) : Except Fault (Cell α) :=
  match q.cell? serial with
  | some c => .ok c
  | none => .error .dangling

def idOf (q : Queue α) (serial : Nat) : Except Fault EntryId :=
  return ⟨q.number, serial, (← q.cell serial).content.isSnapshot⟩

/-- Goes on with what `read` finds in the queue. -/
def ask {β : Type} (read : Queue α → Except Fault β) : QueueM α β := do ofExcept (read (← get))

/-- Makes a cell that is not in the chain. -/
def create (content : Content α) : QueueM α EntryId :=
  modifyGet fun q => (⟨q.number, q.cells.size, content.isSnapshot⟩,
    { q with cells := q.cells.push ⟨content, none, none⟩ })

def alter (serial : Nat) (change : Cell α → Cell α) : QueueM α Unit := do
  let c ← ask (·.cell serial)
  modify fun q => { q with cells := q.cells.set serial (change c) }

/-- Ends the cell `serial` and answers with what it stood for. -/
def destroy (serial : Nat) : QueueM α (Content α) := do
  let c ← ask (·.cell serial)
  modify fun q => { q with cells := q.cells.erase serial }
  return c.content

theorem cell_eq_ok_iff {q : Queue α} {serial : Nat} {c : Cell α} :
    q.cell serial = .ok c ↔ q.cell? serial = some c := by
  cases found : q.cell? serial <;> simp [cell, found]

@[simp] theorem run_create (q : Queue α) (content : Content α) :
    (create content).run q = .ok ⟨q.number, q.cells.size, content.isSnapshot⟩
      { q with cells := q.cells.push ⟨content, none, none⟩ } := rfl

theorem run_ask_of_eq_ok {β : Type} {q : Queue α} {read : Queue α → Except Fault β} {b : β}
    (found : read q = .ok b) : (ask read).run q = .ok b q := by
  show (ofExcept (read q) : QueueM α β).run q = .ok b q
  rw [found]
  rfl

theorem run_alter {q : Queue α} {serial : Nat} {c : Cell α} (change : Cell α → Cell α)
    (found : q.cell? serial = some c) :
    (alter serial change).run q = .ok () { q with cells := q.cells.set serial (change c) } := by
  rw [alter, EStateM.run_bind, run_ask_of_eq_ok (cell_eq_ok_iff.2 found)]
  rfl

theorem run_destroy {q : Queue α} {serial : Nat} {c : Cell α} (found : q.cell? serial = some c) :
    (destroy serial).run q = .ok c.content { q with cells := q.cells.erase serial } := by
  rw [destroy, EStateM.run_bind, run_ask_of_eq_ok (cell_eq_ok_iff.2 found)]
  rfl

/-! ## Walks -/

/-- The cells from `start` towards the older end, at most `steps` of them. -/
def olderWalkWithin (q : Queue α) : Nat → Option Nat → Except Fault (List Nat)
  | 0, _ | _, none => .ok []
  | steps + 1, some serial => do
    let c ← q.cell serial
    pure (serial :: (← q.olderWalkWithin steps c.older))

def newerWalkWithin (q : Queue α) : Nat → Option Nat → Except Fault (List Nat)
  | 0, _ | _, none => .ok []
  | steps + 1, some serial => do
    let c ← q.cell serial
    pure (serial :: (← q.newerWalkWithin steps c.newer))

def olderWalk (q : Queue α) (start : Option Nat) : Except Fault (List Nat) :=
  q.olderWalkWithin q.cells.size start

def newerWalk (q : Queue α) (start : Option Nat) : Except Fault (List Nat) :=
  q.newerWalkWithin q.cells.size start

/-- The handles from `start` up to the next snapshot, and that snapshot. -/
def handlesUpToSnapshot (q : Queue α) : Nat → Option Nat → Except Fault (List Nat × Option Nat)
  | 0, start => .ok ([], start)
  | _, none => .ok ([], none)
  | steps + 1, some serial => do
    let c ← q.cell serial
    if c.content.isSnapshot then pure ([], some serial)
    else
      let (handles, next) ← q.handlesUpToSnapshot steps c.newer
      pure (serial :: handles, next)

/-! ## Links -/

/-- Puts the cell `serial` behind the newest one. -/
def link (serial : Nat) : QueueM α Unit := do
  let newest := (← get).newest
  alter serial ({ · with older := newest, newer := none })
  if let some last := newest then alter last ({ · with newer := some serial })
  modify ({ · with newest := some serial })

/-- Takes the snapshot `serial` out of the chain and answers with the handles that leave it too:
with the oldest snapshot go the handles that were waiting only for it. -/
def unlinkSnapshot (serial : Nat) : QueueM α (List Nat) := do
  let c ← ask (·.cell serial)
  let (doomed, next) ← match c.older with
    | some older => do
      alter older ({ · with newer := c.newer })
      pure ([], c.newer)
    | none => ask fun q => q.handlesUpToSnapshot q.cells.size c.newer
  match next with
  | some next => alter next ({ · with older := c.older })
  | none => modify ({ · with newest := c.older })
  return doomed

end Queue
end RopeStore.Deferral
