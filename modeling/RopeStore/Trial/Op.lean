/-!
# Operations of a trial

A trial is a list of operations on numbered nodes, snapshots and handles.

* `Op.fields` : the fields of an operation in their order. The text, the wire form and the mutations
  of an operation are all read off them;
* `Op.setField` : the operation with another value in one field;
* `Op.describe`, `describeAll` : the text of an operation and of a list.
-/

namespace RopeStore.Trial

inductive Op
  | newBuffer (id : UInt32) (length : UInt16) (fill : UInt8)
  | newExternal (id : UInt32) (length : UInt16) (fill : UInt8)
  /-- Makes a part of node `src`; position and length are reduced into its bounds. -/
  | subRange (id src : UInt32) (pos length : UInt16)
  | cloneNode (id src : UInt32)
  | dropNode (id : UInt32)
  /-- Appends `length` copies of `fill` as far as the node allows. -/
  | append (id : UInt32) (length fill : UInt8)
  | newSnapshot (id : UInt32)
  | dropSnapshot (id : UInt32)
  | newHandle (id : UInt32)
  | deleteHandle (id : UInt32)
  deriving DecidableEq, Repr

inductive Width
  | byte | half | word
  deriving DecidableEq, Repr

def Width.bytes : Width → Nat
  | .byte => 1
  | .half => 2
  | .word => 4

def Width.bound : Width → Nat
  | .byte => UInt8.size
  | .half => UInt16.size
  | .word => UInt32.size

structure Field where
  name : String
  width : Width
  value : Nat
  deriving DecidableEq, Repr

namespace Op

def variant : Op → Nat
  | .newBuffer .. => 0
  | .newExternal .. => 1
  | .subRange .. => 2
  | .cloneNode .. => 3
  | .dropNode .. => 4
  | .append .. => 5
  | .newSnapshot .. => 6
  | .dropSnapshot .. => 7
  | .newHandle .. => 8
  | .deleteHandle .. => 9

def name : Op → String
  | .newBuffer .. => "NewBuffer"
  | .newExternal .. => "NewExternal"
  | .subRange .. => "SubRange"
  | .cloneNode .. => "CloneNode"
  | .dropNode .. => "DropNode"
  | .append .. => "Append"
  | .newSnapshot .. => "NewSnapshot"
  | .dropSnapshot .. => "DropSnapshot"
  | .newHandle .. => "NewHandle"
  | .deleteHandle .. => "DeleteHandle"

def fields : Op → List Field
  | .newBuffer id length fill | .newExternal id length fill =>
    [⟨"id", .word, id.toNat⟩, ⟨"len", .half, length.toNat⟩, ⟨"fill", .byte, fill.toNat⟩]
  | .subRange id src pos length =>
    [⟨"id", .word, id.toNat⟩, ⟨"src", .word, src.toNat⟩, ⟨"pos", .half, pos.toNat⟩,
      ⟨"len", .half, length.toNat⟩]
  | .cloneNode id src => [⟨"id", .word, id.toNat⟩, ⟨"src", .word, src.toNat⟩]
  | .append id length fill =>
    [⟨"id", .word, id.toNat⟩, ⟨"len", .byte, length.toNat⟩, ⟨"fill", .byte, fill.toNat⟩]
  | .dropNode id | .newSnapshot id | .dropSnapshot id | .newHandle id | .deleteHandle id =>
    [⟨"id", .word, id.toNat⟩]

def setId (id : UInt32) : Op → Op
  | .newBuffer _ length fill => .newBuffer id length fill
  | .newExternal _ length fill => .newExternal id length fill
  | .subRange _ src pos length => .subRange id src pos length
  | .cloneNode _ src => .cloneNode id src
  | .dropNode _ => .dropNode id
  | .append _ length fill => .append id length fill
  | .newSnapshot _ => .newSnapshot id
  | .dropSnapshot _ => .dropSnapshot id
  | .newHandle _ => .newHandle id
  | .deleteHandle _ => .deleteHandle id

/-- The operation with `value` in the field at `position`; there may be no such field. -/
def setField (op : Op) (position value : Nat) : Op :=
  match op, position with
  | op, 0 => op.setId value.toUInt32
  | .newBuffer id _ fill, 1 => .newBuffer id value.toUInt16 fill
  | .newBuffer id length _, 2 => .newBuffer id length value.toUInt8
  | .newExternal id _ fill, 1 => .newExternal id value.toUInt16 fill
  | .newExternal id length _, 2 => .newExternal id length value.toUInt8
  | .subRange id _ pos length, 1 => .subRange id value.toUInt32 pos length
  | .subRange id src _ length, 2 => .subRange id src value.toUInt16 length
  | .subRange id src pos _, 3 => .subRange id src pos value.toUInt16
  | .cloneNode id _, 1 => .cloneNode id value.toUInt32
  | .append id _ fill, 1 => .append id value.toUInt8 fill
  | .append id length _, 2 => .append id length value.toUInt8
  | op, _ => op

def createdNode? : Op → Option UInt32
  | .newBuffer id .. | .newExternal id .. | .subRange id .. | .cloneNode id _ => some id
  | _ => none

/-- The operation with `id` for the node it works on: its source if it has one. -/
def retarget (id : UInt32) : Op → Op
  | .subRange own _ pos length => .subRange own id pos length
  | .cloneNode own _ => .cloneNode own id
  | op => op.setId id

def describe (op : Op) : String :=
  let parts := op.fields.map fun f => s!"{f.name}: {f.value}"
  op.name ++ " \x7b " ++ ", ".intercalate parts ++ " \x7d"

end Op

/-- Takes the last operation off a list, a number of times: whether there was one each time, and
what is left. -/
def popEach : Nat → List Op → List Bool × List Op
  | 0, ops => ([], ops)
  | count + 1, ops =>
    let (popped, left) := popEach count ops.dropLast
    ((!ops.isEmpty) :: popped, left)

def describeAll (ops : List Op) : String :=
  "Ops \x7b ops: [" ++ ", ".intercalate (ops.map Op.describe) ++ "] \x7d"

end RopeStore.Trial
