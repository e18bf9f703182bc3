/-!
# Faults

* `Assertion` : the conditions that a checked build tests while it runs, with their text;
* `Fault` : every way an operation can stop before its end, one constructor per cause;
* `Fault.kind`, `Fault.message` : the class of a fault and its wording;
* `require`, `checkedAdd`, `checkedSub` : the primitive steps that may fault. Machine words are
  natural numbers below `2 ^ 64`; arithmetic on them faults where the word would wrap.
-/

namespace RopeStore

/-- A condition that a checked build tests while it runs. -/
inductive Assertion
  | shortForm
  | countHeld
  | lockTaken
  /-- A view is neither empty nor the whole of its child. -/
  | properPart
  /-- A view begins early enough to fit into its child. -/
  | startInside
  | queueDrained
  /-- A storage tag lies between the first and the last buffer tag. -/
  | bufferTag
  | immortalCount
  deriving DecidableEq, Repr

/-- The condition as it is written in reports. -/
def Assertion.condition : Assertion → String
  | .shortForm => "!self.is_tree()"
  | .countHeld => "count > 0 || count & IMMORTAL_FLAG != 0"
  | .lockTaken => "self.locked.get()"
  | .properPart => "0 < n && n < child.len()"
  | .startInside => "start <= child.len() - n"
  | .queueDrained => "self.tail.get_mut().is_null()"
  | .bufferTag => "(BUFFER..=MAX_BUFFER_TAG).contains(&tag)"
  | .immortalCount => "node.node.refcount.is_immortal()"

/-- A way in which an operation stops before its end. -/
inductive Fault
  | addOverflow
  | subOverflow
  | assertion (failed : Assertion)
  | unequal
  | outOfBounds
  | noSizeClass (size : Nat)
  /-- A part of `count` bytes at `pos` does not lie in a node of `length` bytes. -/
  | badPart (count pos length : Nat)
  | malformedTag (tag : UInt8)
  | viewOverView
  | bufferTooSmall (length : Nat)
  | shortTooSmall (length : Nat)
  | payloadOfTree
  | sizeOfTree
  | sizeTooLarge (size : Nat)
  | rootOfShort
  | paddedTree
  | compareTree
  | slotOfShort
  | sampleOfShort
  /-- A checking lock was taken twice. -/
  | lockHeld
  /-- A blocking lock was taken twice. -/
  | deadlock
  | notHeld
  | snapshotMissing
  | immortalDestroyed
  /-- A node or queue entry was used after its end. -/
  | dangling
  deriving DecidableEq, Repr

/-- The classes into which reports sort faults. -/
inductive FaultKind
  | overflow | assertion | unequal | index | misuse | deadlock | notHeld
  deriving DecidableEq, Repr

namespace Fault

def kind : Fault → FaultKind
  | .addOverflow | .subOverflow => .overflow
  | .assertion _ => .assertion
  | .unequal => .unequal
  | .outOfBounds => .index
  | .deadlock => .deadlock
  | .notHeld => .notHeld
  | _ => .misuse

/-- The wording of a fault; empty for the classes that say everything. -/
def message : Fault → String
  | .addOverflow => "attempt to add with overflow"
  | .subOverflow => "attempt to subtract with overflow"
  | .assertion failed => "assertion failed: " ++ failed.condition
  | .unequal | .outOfBounds | .deadlock | .notHeld => ""
  | .noSizeClass size => s!"allocation size {size} has no buffer tag"
  | .badPart count pos length =>
    s!"invalid sub-range of {count} bytes at {pos} in a node of {length} bytes"
  | .malformedTag tag => s!"invalid node tag: {tag.toNat}"
  | .viewOverView => "range nodes may only wrap buffer or external nodes"
  | .bufferTooSmall length => s!"{length} bytes do not fit in a buffer node"
  | .shortTooSmall length => s!"{length} bytes do not fit in an inline value"
  | .payloadOfTree => "inline buffer of a tree value"
  | .sizeOfTree => "inline size of a tree value"
  | .sizeTooLarge size => s!"inline size {size} is too large"
  | .rootOfShort => "set_tree on an inline value"
  | .paddedTree => "copy_max_inline_to on a tree value"
  | .compareTree => "compare requires two inline values"
  | .slotOfShort => "sample slot of an inline value"
  | .sampleOfShort => "only tree values can be sampled"
  | .lockHeld => "delete queue lock is already held"
  | .snapshotMissing => "snapshot is missing from its queue"
  | .immortalDestroyed => "immortal external node was destroyed"
  | .dangling => "use of an object after its end"

end Fault

/-! ## Steps that may fault -/

/-- One more than the largest machine word. -/
def wordBound : Nat := UInt64.size

theorem wordBound_eq : wordBound = 18446744073709551616 := rfl

/-- Stops with the assertion `failed` unless `holds`. -/
def require (failed : Assertion) (holds : Bool) : Except Fault Unit :=
  if holds then .ok () else .error (.assertion failed)

def checkedAdd (a b : Nat) : Except Fault Nat :=
  if a + b < wordBound then .ok (a + b) else .error .addOverflow

def checkedSub (a b : Nat) : Except Fault Nat :=
  if b ≤ a then .ok (a - b) else .error .subOverflow

end RopeStore
