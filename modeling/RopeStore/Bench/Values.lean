import RopeStore.Bench.Nodes
import RopeStore.Bench.Samples
import RopeStore.Value.Order

/-!
# Steps on values

A value that is changed is off the shelf until the change is over, and goes back also after a fault.
-/

namespace RopeStore.Bench
open Sampling (RecordId Registry)

def onValue {α : Type} (name : String) (op : Value.ValueM Owner α) : BenchM α := do
  let (outcome, after) ← onLooseValue (← values.take name) op
  values.store name after
  orComplain outcome

def changeValue (name : String) (change : Value → Except Fault Value) : BenchM Answer := do
  onValue name do Value.put (change (← get).value)
  return .nothing

def readValue {α : Type} (name : String) (read : Value → Except Fault α) : BenchM α := do
  orComplain (read (← values.find name))

def readValues {α : Type} (name other : String) (read : Value → Value → Except Fault α) :
    BenchM α := do
  let a ← values.find name
  let b ← values.find other
  orComplain (read a b)

/-- Performs a change to which a reference to a root is passed; without the value the reference is
given up. -/
def withRoot {α : Type} (name : String) (root : RootArg) (op : NodeId → Value.ValueM Owner α) :
    BenchM α := do
  let root ← root.pass
  match ← values.find? name with
  | some _ => onValue name (op root)
  | none =>
    onHeap (Heap.release root)
    throw (.missing values.sort name)

/-- Puts a root that was taken out of a value on the shelf, or gives it up. -/
def disposeRoot (root : NodeId) : Option String → BenchM Unit
  | some name => nodes.store name root
  | none => onHeap (Heap.release root)

def ValueAction.perform : ValueAction → BenchM Answer
  | .new name => do
    values.store name .new
    return .nothing
  | .ofShort name data => do
    let bytes ← data.read
    values.store name (← orComplain (Value.ofShort bytes))
    return .nothing
  | .ofTree name root => do
    values.store name (.ofTree (← root.pass))
    return .nothing
  | .copy name data => do
    let bytes ← data.read
    values.store name (← onHeap (Value.copy bytes))
    return .nothing
  | .clone name source => do
    let v ← values.find source
    values.store name (← onHeap v.clone)
    return .nothing
  | .drop name => do
    values.drop name
    return .nothing
  | .setBytes name data => do
    let bytes ← data.read
    onValue name (Value.setBytes bytes)
    return .nothing
  | .writeAt name start data => do
    let bytes ← data.read
    changeValue name fun v => v.writeAt start bytes
  | .payload name => do return .bytes (← readValue name Value.payload).toList
  | .setSize name count => changeValue name fun v => v.setSize count
  | .makeTree name root => do
    withRoot name root Value.makeTree
    return .nothing
  | .setRoot name root keep => do
    disposeRoot (← withRoot name root Value.replaceRoot) keep
    return .nothing
  | .takeRoot name keep => do
    match ← onValue name Value.extractRoot with
    | none => return .flag false
    | some root =>
      disposeRoot root keep
      return .flag true
  | .clear name => do
    onValue name Value.clear
    return .nothing
  | .size name => do return .number (← readValue name Value.size)
  | .paddedBytes name => do return .bytes (← readValue name Value.paddedBytes)
  | .compare name other => do return .order (← readValues name other Value.compare)
  | .same name other => do return .flag (← readValues name other Value.same)
  | .isSampled name => do return .flag (← readValue name Value.isSampled)
  | .isEitherSampled name other => do
    return .flag (← readValues name other Value.isEitherSampled)
  | .sample name => do
    match ← readValue name Value.sample with
    | none => return .nothing
    | some address =>
      match (← get).recordNames[(RecordId.ofAddress address).index]? with
      | some record => return .text record
      | none => return .nothing
  | .setSample name record => do
    let address ← record.mapM fun record => return (← recordNamed record).address
    changeValue name fun v => v.setSample address
  | .clearSample name => changeValue name Value.clearSample
  | .update name method count => do
    match ← readValue name Value.sample with
    | none => return .flag false
    | some address =>
      let record := RecordId.ofAddress address
      unless (← get).recordExists record do throw .danglingSample
      onRegistry (Registry.onRecord record (Sampling.Record.update method count))
      return .flag true
  | .track name method handle queue => do
    let v ← values.find name
    let number ← queueNumber queue
    let tracked ← onOffice number
      (Sampling.track v (← get).heap method .sample RecordId.address)
    nameRecord handle
    register handle tracked.handle
    values.replace name tracked.value
    log (.sampling method tracked.record.size)
    handles.store handle tracked.handle
    return .nothing
  | .untrack name handle => do
    let entry ← handles.find handle
    match (← get).recordOfHandle? handle with
    | none => throw .notRecordHandle
    | some record =>
      let v ← values.find name
      let _ ← handles.take handle
      let (outcome, taken) ← onQueue entry.queue (Sampling.untrack v entry record.address)
      if let .ok after := outcome then values.replace name after
      settleDeletion entry taken
      let _ ← orComplain outcome
      return .nothing

end RopeStore.Bench
