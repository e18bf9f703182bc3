import RopeStore.Bench.Deferrals
import RopeStore.Bench.Values
import RopeStore.Bench.Views

/-!
# Running a script

* `Step.perform` : one step and its report. A complaint ends a step, not the script;
* `runBlock` : the steps of an object that was destroyed. Every block belongs to one object and is
  performed once, so no more blocks can be nested than there are;
* `tearDown` : drops all that is left, object by object;
* `Script.run` : a whole script.
-/

namespace RopeStore.Bench

def Action.perform : Action → BenchM Answer
  | .look => return .nothing
  | .node action => action.perform
  | .value action => action.perform
  | .sample action => action.perform
  | .deferral action => action.perform
  | .unknown => throw .unknownStep

def Look.nothing : Look := ⟨none, none, none, none, none⟩

/-- Performs one step. The events of the step are kept apart from those around it. -/
def Step.perform (step : Step) : BenchM Report := do
  let before := (← get).events
  modify fun w => { w with events := #[] }
  let outcome : Except Complaint Answer ←
    try
      let answer ← step.action.perform
      pure (.ok answer)
    catch complaint => pure (.error complaint)
  let look ← try step.focus.look catch _ => pure .nothing
  let events := (← get).events.toList
  modify fun w => { w with events := before }
  return { outcome, events, look }

/-- Performs the steps of a block, with at most `depth` blocks inside of each other. -/
def runBlock (blocks : Array (List Step)) : Nat → Hook
  | 0, _ => return []
  | depth + 1, block =>
    ((blocks[block]?.getD []).mapM Step.perform).run (runBlock blocks depth)

/-- Drops all that is left, at most `count` objects. -/
def tearDown : Nat → BenchM Unit
  | 0 => return
  | count + 1 => do if ← dropNext then tearDown count

def World.bare : World :=
  { heap := .initial
    bays := #[.new sharedNumber .shared]
    queueNumbers := .empty
    registry := .empty
    recordNames := #[]
    nodes := .empty
    raws := .empty
    values := .empty
    records := .empty
    trackers := .empty
    handles := .empty
    snapshots := .empty
    known := .empty
    entryNames := []
    events := #[] }

def World.initial (queues : List (String × QueueKind)) : World :=
  queues.foldl (fun w entry => w.addQueue entry.1 entry.2) .bare

def Bay.ending (bay : Bay) : QueueEnd :=
  match bay.kind with
  | .shared => .stays
  | _ =>
    match bay.queue.close with
    | .ok _ => .dropped
    | .error fault => .stopped fault

/-- Looks at a queue after everything else is gone, and drops it. -/
def endQueue (name : String) (number : Nat) : BenchM (String × QueueView × QueueEnd) := do
  let view ← viewQueue number
  let ending := ((← get).bays[number]?.map Bay.ending).getD .stays
  return (name, view, ending)

def Script.size (script : Script) : Nat :=
  script.blocks.foldr (fun block total => block.length + total) script.steps.length

def Script.play (script : Script) : BenchM Outcome := do
  let reports ← script.steps.mapM Step.perform
  tearDown (script.size + 1)
  let leftovers := (← get).events.toList
  let queues ← (← get).queueNumbers.entries.mapM fun (name, number) => endQueue name number
  return { reports, leftovers, queues }

def Script.run (script : Script) : Except Complaint Outcome :=
  let hook := runBlock script.blocks (script.blocks.size + 1)
  match (script.play.run hook).run (.initial script.queues) with
  | .ok outcome _ => .ok outcome
  | .error complaint _ => .error complaint

end RopeStore.Bench
