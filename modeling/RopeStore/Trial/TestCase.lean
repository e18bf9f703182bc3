import RopeStore.Trial.Mutation
import RopeStore.Trial.Run
import RopeStore.Trial.Wire

/-!
# Test cases

A test case is bytes that may be the written form of a list of operations. If they are, `run` has
the trial run. The mutation of a test case reads the list from the whole
buffer that the test case lies in, mutates it once, and writes it back, without its last operations
if it is too long for the buffer. For some seeds, or if not even the empty list fits, the mutation
of bytes takes over.
-/

namespace RopeStore.Trial.TestCase

/-- The payload bytes that the trial of a test case may use at a time. -/
def payloadLimit : Nat := 4 * 1024 * 1024

/-- Runs the trial of a test case, if it is one. -/
def run (bytes : List UInt8) : Option Outcome :=
  match Wire.decode bytes with
  | .ok (ops, _) => some (Trial.run payloadLimit ops)
  | .error _ => none

/-! ## Mutation -/

def oneBits (n : UInt32) : Nat := ((List.range 32).filter fun i => n.toNat.testBit i).length

/-- The list that some bytes begin with, the empty one if they do not begin with any. -/
def decodeOrEmpty (bytes : List UInt8) : List Op :=
  match Wire.decode bytes with
  | .ok (ops, _) => ops
  | .error _ => []

/-- Writes a list into a buffer, its last operations left out as long as it does not fit. The list
is given backwards. -/
def writeTrimmed (buffer : List UInt8) : List Op → Option Nat × List UInt8
  | [] => Wire.writeInto [] buffer
  | last :: before =>
    match Wire.writeInto (last :: before).reverse buffer with
    | (some count, after) => (some count, after)
    | (none, after) => writeTrimmed after before

inductive Mutated
  | fallback
  /-- The buffer, and how many of its bytes are the new test case. -/
  | done (size : Nat) (buffer : List UInt8)
  deriving DecidableEq, Repr

/-- Mutates the test case in the first `size` bytes of `buffer`; the new one has at most `maxSize`
bytes. -/
def mutateBuffer (buffer : List UInt8) (size maxSize : Nat) (seed : UInt32) : Mutated :=
  if oneBits seed % 8 = 0 then .fallback
  else
    let draw := mutate (decide (maxSize < size)) (decodeOrEmpty buffer)
    let ops := (draw.run (.ofSeed seed.toUInt64)).1
    match writeTrimmed buffer ops.reverse with
    | (some count, after) => .done (min count maxSize) after
    | (none, _) => .fallback

/-- Mutates a test case. It lies in a buffer with room for `maxSize` bytes, with zeros behind it. -/
def mutateBytes (bytes : List UInt8) (maxSize : Nat) (seed : UInt32) : Mutated :=
  mutateBuffer (bytes ++ List.replicate (maxSize - bytes.length) 0) bytes.length maxSize seed

end RopeStore.Trial.TestCase
