import RopeStore.Trial.Op

/-!
# The wire form of operations

A list of operations is written as its length in eight bytes, and then each operation as its variant
in four bytes and its fields in their widths, all with the least byte first and nothing in between.

* `chunks`, `encode` : the written form, number by number and as a whole;
* `decode` : reads a list and leaves the bytes behind it. It fails where the bytes end, or at a
  variant that does not exist, whichever is met first;
* `writeInto` : writes into a buffer of fixed length. A number that does not fit is not written at
  all, and what was written before it stays.
-/

namespace RopeStore.Trial.Wire

/-! ## Writing -/

/-- A number in a given number of bytes, the least byte first. -/
def littleEndian : Nat → Nat → List UInt8
  | 0, _ => []
  | count + 1, n => n.toUInt8 :: littleEndian count (n / 256)

@[simp] theorem length_littleEndian (count n : Nat) : (littleEndian count n).length = count := by
  induction count generalizing n with
  | zero => rfl
  | succ count ih => simp [littleEndian, ih]

def opChunks (op : Op) : List (List UInt8) :=
  littleEndian 4 op.variant :: op.fields.map fun f => littleEndian f.width.bytes f.value

def chunks (ops : List Op) : List (List UInt8) :=
  littleEndian 8 ops.length :: ops.flatMap opChunks

def encode (ops : List Op) : List UInt8 := (chunks ops).flatten

/-- Writes numbers into a buffer, one after the other. The answer is the number of bytes written, if
all numbers fit, and the buffer after the writing. -/
def writeChunks : List (List UInt8) → List UInt8 → Option Nat × List UInt8
  | [], buffer => (some 0, buffer)
  | chunk :: rest, buffer =>
    if chunk.length ≤ buffer.length then
      let (count, after) := writeChunks rest (buffer.drop chunk.length)
      (count.map (chunk.length + ·), chunk ++ after)
    else (none, buffer)

def writeInto (ops : List Op) (buffer : List UInt8) : Option Nat × List UInt8 :=
  writeChunks (chunks ops) buffer

/-! ## Reading -/

/-- Why bytes are not the written form of a list. -/
inductive DecodeError
  | unexpectedEnd
  | unexpectedVariant
  deriving DecidableEq, Repr

def DecodeError.name : DecodeError → String
  | .unexpectedEnd => "UnexpectedEnd"
  | .unexpectedVariant => "UnexpectedVariant"

abbrev Reader := StateT (List UInt8) (Except DecodeError)

def readByte : Reader UInt8 := fun bytes =>
  match bytes with
  | [] => .error .unexpectedEnd
  | b :: rest => .ok (b, rest)

def readNumber : Nat → Reader Nat
  | 0 => return 0
  | count + 1 => do
    let low ← readByte
    let high ← readNumber count
    return low.toNat + 256 * high

def readU8 : Reader UInt8 := do return (← readNumber 1).toUInt8

def readU16 : Reader UInt16 := do return (← readNumber 2).toUInt16

def readU32 : Reader UInt32 := do return (← readNumber 4).toUInt32

def readFields : Nat → Reader Op
  | 0 => return .newBuffer (← readU32) (← readU16) (← readU8)
  | 1 => return .newExternal (← readU32) (← readU16) (← readU8)
  | 2 => return .subRange (← readU32) (← readU32) (← readU16) (← readU16)
  | 3 => return .cloneNode (← readU32) (← readU32)
  | 4 => return .dropNode (← readU32)
  | 5 => return .append (← readU32) (← readU8) (← readU8)
  | 6 => return .newSnapshot (← readU32)
  | 7 => return .dropSnapshot (← readU32)
  | 8 => return .newHandle (← readU32)
  | 9 => return .deleteHandle (← readU32)
  | _ => throw .unexpectedVariant

def readOp : Reader Op := do readFields (← readNumber 4)

def readOps : Nat → Reader (List Op)
  | 0 => return []
  | count + 1 => do
    let op ← readOp
    let rest ← readOps count
    return op :: rest

/-- Reads a list of operations and leaves the bytes behind it. -/
def decode (bytes : List UInt8) : Except DecodeError (List Op × List UInt8) :=
  (do readOps (← readNumber 8) : Reader (List Op)).run bytes

end RopeStore.Trial.Wire
