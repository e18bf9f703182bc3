import RopeStore.Heap.Bytes

/-!
# Values

A value is sixteen bytes: a short byte string, or the root of a tree. Byte 0, the control byte,
tells the two forms apart.

* short: the control byte is twice the size, and the payload has the other 15 bytes;
* tree: the first eight bytes are the sample slot, least byte first, and a reference to the root
  fills the rest. The slot is odd, so the control byte is odd exactly in this form.

The payload behind the size is unused. Operations that set the size fill it with `poison`, so that a
reader of unused bytes shows up.

* `isTree`, `root?`, `shortBytes?`, `size` : the two forms;
* `length`, `bytes`, `describe` : what a value stands for, found through the heap if it is a tree.
-/

namespace RopeStore

/-- A short byte string or the root of a tree. -/
inductive Value
  | short (control : UInt8) (payload : Vector UInt8 15)
  | tree (slot : UInt64) (root : NodeId)
  deriving DecidableEq

namespace Value

def maxShort : Nat := 15

/-- What fills the unused bytes of a short value. -/
def poison : UInt8 := 0xA5

/-- The slot of a tree that is not sampled. -/
def nullSlot : UInt64 := 1

/-! ## The two forms -/

/-- Byte 0 of a value. -/
def control : Value → UInt8
  | .short control _ => control
  | .tree slot _ => slot.toUInt8

def isTree (v : Value) : Bool := v.control &&& 1 != 0

def shortSize (v : Value) : Nat := (v.control >>> 1).toNat

def root? : Value → Option NodeId
  | .short .. => none
  | .tree slot root => if (Value.tree slot root).isTree then some root else none

/-- The payload of a short value, used and unused bytes alike. -/
def payload? : Value → Option (Vector UInt8 15)
  | .short control payload =>
    if (Value.short control payload).isTree then none else some payload
  | .tree .. => none

def shortBytes? (v : Value) : Option (List UInt8) := do
  return (← v.payload?).toList.take v.shortSize

def size (v : Value) : Except Fault Nat := do
  require .shortForm (!v.isTree)
  pure v.shortSize

/-! ## Making values -/

/-- `data`, followed by `filler` up to 15 bytes. -/
def padded (data : List UInt8) (filler : UInt8) : Vector UInt8 15 :=
  Vector.ofFn fun i => data.getD i filler

def controlFor (size : Nat) : UInt8 := size.toUInt8 <<< 1

/-- The empty value that was never written to. Its payload is zero. -/
def new : Value := .short 0 (padded [] 0)

/-- The empty value whose payload is poisoned. -/
def cleared : Value := .short 0 (padded [] poison)

def ofShort (data : List UInt8) : Except Fault Value :=
  if data.length ≤ maxShort then .ok (.short (controlFor data.length) (padded data poison))
  else .error (.shortTooSmall data.length)

/-- The tree with the given root that is not sampled. -/
def ofTree (root : NodeId) : Value := .tree nullSlot root

/-! ## What a value stands for -/

section Content
variable {ρ : Type}

def length (v : Value) (h : Heap ρ) : Except Fault Nat :=
  match v.root? with
  | some root => h.length root
  | none => v.size

def bytes (v : Value) (h : Heap ρ) : Except Fault (List UInt8) :=
  match v.root? with
  | some root => h.bytes root
  | none => pure (v.shortBytes?.getD [])

def slot : Value → Except Fault UInt64
  | .short .. => .error .slotOfShort
  | .tree slot root => if (Value.tree slot root).isTree then .ok slot else .error .slotOfShort

def listText (data : List UInt8) : String :=
  "[" ++ ", ".intercalate (data.map fun b => toString b.toNat) ++ "]"

def describe (v : Value) (h : Heap ρ) : Except Fault String :=
  match v.root? with
  | some root => do
    let root ← h.describe root
    let sampled := (← v.slot) != nullSlot
    pure s!"InlineData::Tree \x7b root: {root}, sampled: {sampled} \x7d"
  | none => do
    let data ← v.bytes h
    pure ("InlineData::Inline(" ++ listText data ++ ")")

end Content
end Value
end RopeStore
