import RopeStore.Fault
import RopeStore.Sampling.Method

/-!
# Sample records

* `Tracker` : one signed 64-bit counter per method. Adding faults where a counter would leave its
  range; what was added before stays;
* `Record` : what is known about one sampled value.
-/

namespace RopeStore.Sampling

/-- The number of counts from zero to the largest counter. -/
def countBound : Int := 9223372036854775808

def addCounts (a b : Int) : Except Fault Int :=
  if -countBound ≤ a + b ∧ a + b < countBound then .ok (a + b) else .error .addOverflow

/-- How often each method was used. -/
structure Tracker where
  /-- The counters, in the order of `Method.all`. -/
  counts : Vector Int 11
  deriving DecidableEq

namespace Tracker

def zero : Tracker := ⟨Vector.replicate 11 0⟩

def value (t : Tracker) (method : Method) : Int := t.counts[method.index]

def add (method : Method) (amount : Int) : EStateM Fault Tracker Unit := do
  let sum ← ofExcept (addCounts ((← get).value method) amount)
  modify fun t => ⟨t.counts.set method.index sum⟩

/-- Adds every counter of `other`, in the order of `Method.all`; zeros are passed over. -/
def addAll (other : Tracker) : EStateM Fault Tracker Unit :=
  Method.all.forM fun method => do
    let amount := other.value method
    if amount ≠ 0 then add method amount

def describe (t : Tracker) : String :=
  let entries := Method.all.filterMap fun method =>
    let count := t.value method
    if count = 0 then none else some s!"{method.name}: {count}"
  "\x7b" ++ ", ".intercalate entries ++ "\x7d"

end Tracker

structure Record where
  method : Method
  size : Nat
  updates : Tracker
  deriving DecidableEq

namespace Record

def new (method : Method) : Record := ⟨method, 0, .zero⟩

def onUpdates {α : Type} (op : EStateM Fault Tracker α) : EStateM Fault Record α := fun r =>
  match op.run r.updates with
  | .ok a updates => .ok a { r with updates }
  | .error fault updates => .error fault { r with updates }

/-- Notes an update by `method` that left the value at `size` bytes. The counter comes first, so the
size stays if it faults. -/
def update (method : Method) (size : Nat) : EStateM Fault Record Unit := do
  onUpdates (Tracker.add method 1)
  modify ({ · with size })

def describe (r : Record) : String :=
  s!"SampleInfo \x7b method: {r.method.name}, size: {r.size}, tracker: {r.updates.describe} \x7d"

end Record
end RopeStore.Sampling
