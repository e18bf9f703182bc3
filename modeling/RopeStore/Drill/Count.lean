import RopeStore.RefCount

/-!
# Drills on a reference count

A drill performs a list of actions on one count and notes after each what the action answered and
what the count looks like. A fault ends an action, not the drill.
-/

namespace RopeStore.Drill.Count

inductive Action
  | increment
  | decrement
  | decrementExpectHigh
  | pretty
  deriving DecidableEq, Repr

inductive Answer
  | nothing
  | flag (value : Bool)
  | text (value : String)
  deriving DecidableEq, Repr

structure Note where
  outcome : Except Fault Answer
  count : RefCount

def Action.perform : Action → EStateM Fault RefCount Answer
  | .increment => do
    RefCount.increment
    return .nothing
  | .decrement => return .flag (← RefCount.decrement)
  | .decrementExpectHigh => return .flag (← RefCount.decrementExpectHigh)
  | .pretty => return .text (← get).pretty

def notes (count : RefCount) : List Action → List Note
  | [] => []
  | action :: rest =>
    match action.perform.run count with
    | .ok answer after => ⟨.ok answer, after⟩ :: notes after rest
    | .error fault after => ⟨.error fault, after⟩ :: notes after rest

/-- The notes of a whole drill, the first one taken before any action. -/
def run (start : RefCount) (actions : List Action) : List Note :=
  ⟨.ok .nothing, start⟩ :: notes start actions

end RopeStore.Drill.Count
