import RopeStore.Arena
import RopeStore.Sampling.Record
import RopeStore.Value.Slot

/-!
# Where sample records live

* `Registry` : all records that were ever made, each at an address of its own. Addresses are even
  and not zero, so that they fit into the slot of a tree;
* `begin` : the record of a value that is sampled from now on;
* `finish` : the value that is no longer sampled, once its slot was found to hold its record.
-/

namespace RopeStore.Sampling

/-- The identity of a record. Identities are never used twice. -/
structure RecordId where
  index : Nat
  deriving DecidableEq, Repr

/-- The bytes between the addresses of two records. -/
def recordStride : Nat := 112

def RecordId.address (id : RecordId) : UInt64 := (recordStride * (id.index + 1)).toUInt64

def RecordId.ofAddress (address : UInt64) : RecordId := ⟨address.toNat / recordStride - 1⟩

structure Registry where
  records : Arena Record

namespace Registry

def empty : Registry := ⟨.empty⟩

def find? (r : Registry) (id : RecordId) : Option Record := r.records.get? id.index

def create (record : Record) : EStateM Fault Registry RecordId :=
  modifyGet fun r => (⟨r.records.size⟩, ⟨r.records.push record⟩)

/-- Performs `op` on the record `id`. What it did stays done if it faults. -/
def onRecord {α : Type} (id : RecordId) (op : EStateM Fault Record α) : EStateM Fault Registry α :=
  fun r =>
    match r.find? id with
    | none => .error .dangling r
    | some record =>
      match op.run record with
      | .ok a record => .ok a ⟨r.records.set id.index record⟩
      | .error fault record => .error fault ⟨r.records.set id.index record⟩

end Registry

/-- The first record of the tree `v`, which was made by `method`. -/
def begin {ρ : Type} (v : Value) (h : Heap ρ) (method : Method) : Except Fault Record :=
  if v.isTree then do pure { Record.new method with size := ← v.length h }
  else .error .sampleOfShort

/-- The tree `v` without its sample, which has to be the record at `address`. -/
def finish (v : Value) (address : UInt64) : Except Fault Value := do
  if (← v.sample) = some address then v.clearSample else .error .unequal

end RopeStore.Sampling
