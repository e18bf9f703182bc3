import RopeStore.Lock

/-!
# Drills on a lock

The actions of a drill take and release one lock; after each of them the outcome and the lock are
noted.
-/

namespace RopeStore.Drill.Latch

inductive Action
  | acquire
  | release
  deriving DecidableEq, Repr

structure Note where
  fault : Option Fault
  lock : Lock

def Action.perform : Action → EStateM Fault Lock Unit
  | .acquire => Lock.acquire
  | .release => Lock.release

def run (lock : Lock) : List Action → List Note
  | [] => []
  | action :: rest =>
    match action.perform.run lock with
    | .ok _ after => ⟨none, after⟩ :: run after rest
    | .error fault after => ⟨some fault, after⟩ :: run after rest

end RopeStore.Drill.Latch
