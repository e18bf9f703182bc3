import RopeStore.Trial.Generate

/-!
# Mutating a list of operations

All mutations that a list allows are its candidates, in a fixed order; one of them is drawn and
applied. In shrink mode no candidate makes the list longer or a field greater.
-/

namespace RopeStore.Trial
open RopeStore.Random

/-- A mutation that a list allows. -/
inductive Candidate
  | insert
  | remove
  | field (position place : Nat)
  /-- Makes an operation work on a node that another operation makes. -/
  | retarget
  /-- Inserts an operation that drops a node, behind one that makes it. -/
  | dropNode
  | snapshot
  deriving DecidableEq, Repr

/-- The candidates that change fields of the operation at `position`. A field of zero cannot
shrink. -/
def fieldCandidates (shrink : Bool) (op : Op) (position : Nat) : List Candidate :=
  (op.fields.zipIdx.filter fun entry => !(shrink && entry.1.value == 0)).map fun entry =>
    .field position entry.2

def candidates (shrink : Bool) (ops : List Op) : List Candidate :=
  (if shrink then [] else [.insert]) ++ (if ops.isEmpty then [] else [.remove]) ++
    (ops.zipIdx.flatMap fun entry => fieldCandidates shrink entry.1 entry.2) ++ [.retarget] ++
    (if shrink then [] else [.dropNode, .snapshot])

/-- The operations that make nodes: their positions and the numbers of their nodes. -/
def creations (ops : List Op) : List (Nat × UInt32) :=
  ops.zipIdx.filterMap fun entry => entry.1.createdNode?.map fun id => (entry.2, id)

/-- A new value for a field: any of its type, or a smaller one in shrink mode. -/
def drawField (shrink : Bool) (f : Field) : Draw Nat :=
  if shrink then
    let zone := match f.width with
      | .word => shiftZone .half f.value
      | .half | .byte => divisionZone .half f.value
    below .half zone f.value
  else do
    let drawn := (← next32).toNat
    return drawn % f.width.bound

def drawMember {α : Type} (xs : List α) : Draw (Option α) := do
  return (← index xs.length).bind fun position => xs[position]?

def Candidate.apply (shrink : Bool) (ops : List Op) : Candidate → Draw (List Op)
  | .insert => do
    let position := (← index (ops.length + 1)).getD 0
    let op ← drawOp
    return ops.insertIdx position op
  | .remove => do
    match ← index ops.length with
    | none => return ops
    | some position => return ops.eraseIdx position
  | .field position place => do
    match ops[position]? with
    | none => return ops
    | some op =>
      match op.fields[place]? with
      | none => return ops
      | some f => return ops.set position (op.setField place (← drawField shrink f))
  | .retarget => do
    match ← drawMember (creations ops) with
    | none => return ops
    | some (_, id) =>
      let position := (← index ops.length).getD 0
      return ops.modify position (Op.retarget id)
  | .dropNode => do
    match ← drawMember (creations ops) with
    | none => return ops
    | some (made, id) =>
      let offset := (← index (ops.length - made)).getD 0
      return ops.insertIdx (made + 1 + offset) (.dropNode id)
  | .snapshot => do
    let id ← next32
    let start := (← index (ops.length + 1)).getD 0
    let opened := ops.insertIdx start (.newSnapshot id)
    let offset := (← index (opened.length - start)).getD 0
    return opened.insertIdx (start + 1 + offset) (.dropSnapshot id)

def mutate (shrink : Bool) (ops : List Op) : Draw (List Op) := do
  match ← drawMember (candidates shrink ops) with
  | none => return ops
  | some candidate => candidate.apply shrink ops

/-- The lists after each of a number of mutations in a row. -/
def mutations (shrink : Bool) : Nat → List Op → Draw (List (List Op))
  | 0, _ => return []
  | count + 1, ops => do
    let next ← mutate shrink ops
    let rest ← mutations shrink count next
    return next :: rest

end RopeStore.Trial
