import RopeStore.Value.Basic

/-!
# Comparing values

Two short values are compared without a look at single bytes: as two words of eight bytes each, the
most significant byte first, that overlap in one byte and together cover the payload, and then by
size. The bytes behind the size count as zero.

* `clean`, `paddedBytes` : the payload with its unused bytes as zero;
* `compare` : the order of two short values;
* `same` : equality; two trees are equal if they have the same root and the same slot.
-/

namespace RopeStore.Value

/-- The payload of a short value with its unused bytes as zero. -/
def clean (v : Value) (payload : Vector UInt8 15) : Vector UInt8 15 :=
  Vector.ofFn fun i => if i < v.shortSize then payload.get i else 0

def cleanPayload (v : Value) : Except Fault (Vector UInt8 15) :=
  match v.payload? with
  | some payload => .ok (v.clean payload)
  | none => .error (.assertion .shortForm)

/-- The 15 bytes of a short value with zeros behind its size. -/
def paddedBytes (v : Value) : Except Fault (List UInt8) :=
  match v.payload? with
  | some payload => .ok (v.clean payload).toList
  | none => .error .paddedTree

/-- Eight bytes from `at` on as a number, the most significant byte first. -/
def word (payload : Vector UInt8 15) (start : Nat) : Nat :=
  ((payload.toList.drop start).take 8).foldl (fun n b => n * 256 + b.toNat) 0

def compare (a b : Value) : Except Fault Ordering :=
  if a.isTree || b.isTree then .error .compareTree
  else do
    let p ← a.cleanPayload
    let q ← b.cleanPayload
    pure (((Ord.compare (word p 0) (word q 0)).then (Ord.compare (word p 7) (word q 7))).then
      (Ord.compare (← a.size) (← b.size)))

def same (a b : Value) : Except Fault Bool :=
  match a.root?, b.root? with
  | none, none => do
    let p ← a.cleanPayload
    let q ← b.cleanPayload
    pure (a.control == b.control && p == q)
  | some r, some s => do
    let x ← a.slot
    let y ← b.slot
    pure (x == y && r == s)
  | _, _ => .ok false

end RopeStore.Value
