import RopeStore.Fault

/-!
# Reference counts

A count is one 32-bit word: bit 0 marks an immortal count, the bits above it hold the number of
references. Every reference adds `RefCount.unit = 2`, so an immortal count is odd for ever and never
equals `unit`, the word of a count with exactly one reference.

* `load`, `fetchAdd`, `fetchSub` : the three atomic steps from which all operations are made;
* `increment`, `decrement`, `decrementExpectHigh` : taking and giving up a reference;
* `get`, `isOne`, `isImmortal` : what a single load tells;
* `compact`, `pretty` : the two texts of a count.
-/

namespace RopeStore

/-- A packed count of references. -/
structure RefCount where
  /-- Twice the number of references, plus one if the count is immortal. -/
  packed : Int32
  deriving DecidableEq, Repr

namespace RefCount

/-- What one reference adds to the packed word. -/
def unit : Int32 := 2

def immortalBit : Int32 := 1

def fresh : RefCount := ⟨unit⟩

def immortal : RefCount := ⟨immortalBit⟩

/-! ## Atomic steps -/

def load : EStateM Fault RefCount Int32 := do return (← get).packed

/-- Adds one reference and answers with the word before it. -/
def fetchAdd : EStateM Fault RefCount Int32 :=
  modifyGet fun c => (c.packed, ⟨c.packed + unit⟩)

def fetchSub : EStateM Fault RefCount Int32 :=
  modifyGet fun c => (c.packed, ⟨c.packed - unit⟩)

@[simp] theorem run_load (c : RefCount) : load.run c = .ok c.packed c := rfl

@[simp] theorem run_fetchAdd (c : RefCount) : fetchAdd.run c = .ok c.packed ⟨c.packed + unit⟩ := rfl

@[simp] theorem run_fetchSub (c : RefCount) : fetchSub.run c = .ok c.packed ⟨c.packed - unit⟩ := rfl

/-- Whether a word that was read may give up a reference. -/
def holds (packed : Int32) : Bool := 0 < packed || packed &&& immortalBit != 0

/-! ## Operations -/

def increment : EStateM Fault RefCount Unit := do
  let _ ← fetchAdd

@[simp] theorem run_increment (c : RefCount) : increment.run c = .ok () ⟨c.packed + unit⟩ := rfl

/-- Gives up a reference; `false` says that it was the last one. A word of one reference is left as
it is: nobody else can see it any more. -/
def decrement : EStateM Fault RefCount Bool := do
  let seen ← load
  ofExcept (require .countHeld (holds seen))
  if seen = unit then return false
  return (← fetchSub) != unit

/-- Gives up a reference in one atomic step; `false` says that it was the last one. -/
def decrementExpectHigh : EStateM Fault RefCount Bool := do
  let seen ← fetchSub
  ofExcept (require .countHeld (holds seen))
  return seen != unit

/-- The number of references as an unsigned word. The shift keeps the sign, so a count below zero
reads as a number close to the largest word. -/
def get (c : RefCount) : Nat := (c.packed >>> 1).toInt64.toUInt64.toNat

def isOne (c : RefCount) : Bool := c.packed == unit

def isImmortal (c : RefCount) : Bool := c.packed &&& immortalBit != 0

def compact (c : RefCount) : String :=
  s!"Refcount \x7b count: {c.get}, immortal: {c.isImmortal} \x7d"

def pretty (c : RefCount) : String :=
  s!"Refcount \x7b\n    count: {c.get},\n    immortal: {c.isImmortal},\n\x7d"

end RefCount
end RopeStore
