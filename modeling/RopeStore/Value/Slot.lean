import RopeStore.Value.Basic

/-!
# Sample slots

The slot of a tree holds the address of its sample record with bit 0 set, or just that bit if the
tree is not sampled. Addresses are even and not zero.

* `isSampled`, `isEitherSampled`, `sample` : reading the slot;
* `setSample`, `clearSample` : writing it.
-/

namespace RopeStore.Value

def isSampled (v : Value) : Except Fault Bool := return (← v.slot) != nullSlot

/-- Whether one of two trees is sampled, found with one test of both slots together. -/
def isEitherSampled (a b : Value) : Except Fault Bool := do
  let x ← a.slot
  let y ← b.slot
  pure (x ||| y != nullSlot)

def sample (v : Value) : Except Fault (Option UInt64) := do
  let address := (← v.slot) &&& ~~~1
  pure (if address = 0 then none else some address)

def setSample (v : Value) (record : Option UInt64) : Except Fault Value :=
  match v.root? with
  | none => .error .slotOfShort
  | some root => .ok (.tree (record.elim nullSlot (· ||| 1)) root)

def clearSample (v : Value) : Except Fault Value := v.setSample none

end RopeStore.Value
