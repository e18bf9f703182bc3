import RopeStore.Random
import RopeStore.Trial.Op

/-!
# Drawing operations

The variant is drawn first, and then the fields in their order. Lengths and positions are mostly
small, and in one of eight cases anything up to the largest number of two bytes.
-/

namespace RopeStore.Trial
open RopeStore.Random

def drawLength : Draw UInt16 := do
  let most := if (← index 8) = some 0 then 65535 else 600
  return ((← next32).toNat % most).toUInt16

def drawByte : Draw UInt8 := do return (← next32).toUInt8

def drawFields : Nat → Draw Op
  | 0 => return .newBuffer (← next32) (← drawLength) (← drawByte)
  | 1 => return .newExternal (← next32) (← drawLength) (← drawByte)
  | 2 => return .subRange (← next32) (← next32) (← drawLength) (← drawLength)
  | 3 => return .cloneNode (← next32) (← next32)
  | 4 => return .dropNode (← next32)
  | 5 => return .append (← next32) (← drawByte) (← drawByte)
  | 6 => return .newSnapshot (← next32)
  | 7 => return .dropSnapshot (← next32)
  | 8 => return .newHandle (← next32)
  | _ => return .deleteHandle (← next32)

def drawOp : Draw Op := do drawFields ((← index 10).getD 0)

def drawOps (count : Nat) : Draw (List Op) := (List.replicate count ()).mapM fun _ => drawOp

end RopeStore.Trial
