import RopeStore.Fault

/-!
# Locks

A lock guards the links of a queue. The checking lock faults when it is taken twice and stays taken;
the blocking lock would wait for ever, which is reported as a fault of its own.

* `acquire`, `release` : the two operations;
* `describe` : the text of a lock.
-/

namespace RopeStore

/-- What a lock does when it is taken twice. -/
inductive LockKind
  | checking
  | blocking
  deriving DecidableEq, Repr

structure Lock where
  kind : LockKind
  held : Bool
  deriving DecidableEq, Repr

namespace Lock

def free (kind : LockKind) : Lock := ⟨kind, false⟩

def acquire : EStateM Fault Lock Unit := do
  let lock ← get
  set { lock with held := true }
  if lock.held then
    match lock.kind with
    | .checking => throw .lockHeld
    | .blocking => throw .deadlock

def release : EStateM Fault Lock Unit := do
  let lock ← get
  match lock.kind with
  | .checking => ofExcept (require .lockTaken lock.held)
  | .blocking => unless lock.held do throw .notHeld
  set { lock with held := false }

def describe (lock : Lock) : String :=
  match lock.kind with
  | .checking => s!"SingleThreadedLock \x7b locked: Cell \x7b value: {lock.held} \x7d \x7d"
  | .blocking => s!"ParkingLock \x7b locked: {lock.held} \x7d"

end Lock
end RopeStore
