import RopeStore.Bench.Shelf

/-!
# Steps on records and trackers

A record belongs to the script or to a handle. `recordNamed` finds it in either place, the script
first. A record exists as long as the script owns it, a handle owns it, or a deleted handle that
owns it waits in its queue.
-/

namespace RopeStore.Bench
open Sampling (RecordId Registry Tracker)

def World.recordOfHandle? (w : World) (name : String) : Option RecordId := do
  match ← w.payload? (← w.handles.get? name) with
  | .sample record => some record
  | _ => none

def World.recordNamed? (w : World) (name : String) : Option RecordId :=
  (w.records.get? name).or (w.recordOfHandle? name)

def recordNamed (name : String) : BenchM RecordId := do
  match (← get).recordNamed? name with
  | some record => return record
  | none => throw (.missing "record" name)

def Payload.isRecord (id : RecordId) : Payload → Bool
  | .sample record => record == id
  | _ => false

/-- Whether a deleted handle that owns the record `id` waits in a queue. -/
def Bay.holdsRecord (bay : Bay) (id : RecordId) : Bool :=
  match bay.queue.olderWalk bay.queue.newest with
  | .error _ => false
  | .ok chain => chain.any fun serial =>
    match bay.queue.cell? serial with
    | some ⟨.handle payload, _, _⟩ => payload.isRecord id
    | _ => false

def World.recordExists (w : World) (id : RecordId) : Bool :=
  w.records.values.contains id ||
    w.handles.values.any (fun handle => (w.payload? handle).any (·.isRecord id)) ||
    w.bays.any (·.holdsRecord id)

def onTracker (name : String) (op : EStateM Fault Tracker Unit) : BenchM Unit := do
  let tracker ← trackers.find name
  match op.run tracker with
  | .ok _ after => trackers.replace name after
  | .error fault after =>
    trackers.replace name after
    throw (.fault fault)

def SampleAction.perform : SampleAction → BenchM Answer
  | .newRecord name method => do
    records.store name (← Bench.newRecord name (.new method))
    return .nothing
  | .update name method size => do
    let record ← recordNamed name
    onRegistry (Registry.onRecord record (Sampling.Record.update method size))
    return .nothing
  | .addToRecord name method amount => do
    let record ← recordNamed name
    onRegistry (Registry.onRecord record (Sampling.Record.onUpdates (Tracker.add method amount)))
    return .nothing
  | .dropRecord name => do
    records.drop name
    return .nothing
  | .newTracker name => do
    trackers.store name .zero
    return .nothing
  | .add name method amount => do
    onTracker name (Tracker.add method amount)
    return .nothing
  | .addTracker name source => do
    let _ ← trackers.find name
    let other ← trackers.find source
    onTracker name (Tracker.addAll other)
    return .nothing
  | .addRecord name record => do
    let _ ← trackers.find name
    match (← get).registry.find? (← recordNamed record) with
    | none => throw .danglingSample
    | some source =>
      onTracker name (Tracker.addAll source.updates)
      return .nothing
  | .value name method => do return .count ((← trackers.find name).value method)

end RopeStore.Bench
