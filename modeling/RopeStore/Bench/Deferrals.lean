import RopeStore.Bench.Samples
import RopeStore.Text.Quoted

/-!
# Steps on snapshots and handles
-/

namespace RopeStore.Bench
open Deferral (EntryId)

def PayloadSpec.make (name : String) : PayloadSpec → BenchM Payload
  | .probe block => return .probe name block
  | .other => return .other name
  | .number value => return .number value
  | .text value => return .text value
  | .sample method => do return .sample (← newRecord name (.new method))

def Payload.type : Payload → PayloadType
  | .probe .. => .probe
  | .other _ => .other
  | .number _ => .number
  | .text _ => .text
  | .sample _ => .sample

def Payload.show (w : World) : Payload → PayloadView
  | .probe name _ => .name name
  | .other name => .name name
  | .number value => .number value
  | .text value => .text value
  | .sample id => .record ((w.registry.find? id).getD (.new .unknown))

def Payload.describe (w : World) : Payload → String
  | .probe name _ => s!"Probe \x7b name: {Text.quoted name} \x7d"
  | .other name => s!"Other \x7b name: {Text.quoted name} \x7d"
  | .number value => toString value
  | .text value => Text.quoted value
  | .sample id => ((w.registry.find? id).getD (.new .unknown)).describe

def payloadOf (handle : EntryId) : BenchM Payload := do
  match (← get).payload? handle with
  | some payload => return payload
  | none => throw (.fault .dangling)

def queueText (number : Nat) : BenchM String := do
  let entries ← onQueue number Deferral.Queue.entries
  let stats ← onQueue number Deferral.Queue.readStats
  let name := (← get).nameOf
  let list := "[" ++ ", ".intercalate (entries.map (Log.entryText name)) ++ "]"
  return s!"DeleteQueue \x7b entries: {list}, stats: QueueStats \x7b " ++
    s!"pending: {stats.pending}, reclaimed: {stats.reclaimed} \x7d \x7d"

def DeferralAction.perform : DeferralAction → BenchM Answer
  | .newSnapshot name queue => do
    let number ← queueNumber queue
    let id ← onQueue number Deferral.Queue.openSnapshot
    register name id
    log (.snapshotMade id)
    snapshots.store name id
    return .flag id.isSnapshot
  | .dropSnapshot name => do
    snapshots.drop name
    return .nothing
  | .forgetSnapshot name => do
    let _ ← snapshots.take name
    return .nothing
  | .newHandle name queue payload => do
    let number ← queueNumber queue
    let id ← onQueue number (Deferral.Queue.newHandle (← payload.make name))
    register name id
    handles.store name id
    return .flag id.isSnapshot
  | .delete name => do
    handles.drop name
    return .nothing
  | .isSafeToDelete name => do
    let id ← handles.find name
    onQueue id.queue do return .flag (← get).isEmpty
  | .value name => do
    let payload ← payloadOf (← handles.find name)
    return .payload (payload.show (← get))
  | .describeHandle name => do
    let id ← handles.find name
    let payload ← payloadOf id
    let w ← get
    let identity := Log.entryText w.nameOf id
    let value := payload.describe w
    return .text s!"Handle \x7b id: {identity}, value: {value} \x7d"
  | .isSafeToInspect snapshot target => do
    let target ← target.mapM fun name => do
      match (← get).known.get? name with
      | some id => return id
      | none => throw (.missing "id" name)
    let id ← snapshots.find snapshot
    return .flag (← onQueue id.queue (Deferral.Queue.isSafeToInspect id target))
  | .safeHandles snapshot => do
    let id ← snapshots.find snapshot
    let found ← onQueue id.queue (Deferral.Queue.safeHandles id)
    return .names (found.map (← get).nameOf)
  | .inspect snapshot type => do
    let id ← snapshots.find snapshot
    let found ← onQueue id.queue
      (Deferral.Queue.inspectDeleted id fun p : Payload => if p.type = type then some p else none)
    let w ← get
    return .payloads (found.map fun payload => payload.show w)
  | .describeSnapshot name => do
    let id ← snapshots.find name
    return .text ("Snapshot(" ++ Log.entryText (← get).nameOf id ++ ")")
  | .describeQueue queue => do return .text (← queueText (← queueNumber queue))

end RopeStore.Bench
