import Mathlib.Data.List.Basic
import RopeStore.Proofs.Trial.Wire

/-!
# Fields of operations

* `Op.Changes place f value op'` : the operation becomes `op'` when the field `f` at `place` is set to
  `value`, and nothing else of it changes;
* `changes_setField`, `changes_retarget` : the two ways in which a field is set. The second sets the
  number of the node that the operation works on, `Op.targetName`;
* `Wire.length_encode` : the length of a written form, operation by operation; it depends on the widths
  of the fields alone, so `Op.Changes.length_opBytes` says that no change of a field changes it.
-/

namespace RopeStore.Trial
variable {op op' : Op} {place value : Nat} {f : Field}

theorem Op.value_lt_bound (op : Op) : ∀ f ∈ op.fields, f.value < f.width.bound := by
  have hbyte : ∀ x : UInt8, x.toNat < Width.byte.bound := fun x => x.toNat_lt
  have hhalf : ∀ x : UInt16, x.toNat < Width.half.bound := fun x => x.toNat_lt
  have hword : ∀ x : UInt32, x.toNat < Width.word.bound := fun x => x.toNat_lt
  cases op <;> simp [Op.fields, hbyte, hhalf, hword]

/-! ## Setting a field -/

/-- The operation `op'` is `op` with `value` in the field `f` at `place`. -/
structure Op.Changes (op : Op) (place : Nat) (f : Field) (value : Nat) (op' : Op) : Prop where
  found : op.fields[place]? = some f
  inType : value < f.width.bound
  variant : op'.variant = op.variant
  fields : op'.fields = op.fields.set place { f with value }

theorem Op.fields_setField (op : Op) (place value : Nat) :
    (op.setField place value).fields =
      op.fields.modify place fun f => { f with value := value % f.width.bound } := by
  cases op <;> rcases place with _ | _ | _ | _ | place <;>
    simp [setField, setId, Op.fields, Width.bound]

theorem Op.variant_setField (op : Op) (place value : Nat) :
    (op.setField place value).variant = op.variant := by
  cases op <;> rcases place with _ | _ | _ | _ | place <;> rfl

theorem Op.changes_setField (hf : op.fields[place]? = some f) (hv : value < f.width.bound) :
    op.Changes place f value (op.setField place value) where
  found := hf
  inType := hv
  variant := variant_setField op place value
  fields := by
    rw [fields_setField, List.modify_eq_set_getElem?, hf]
    simp [Nat.mod_eq_of_lt hv]

/-- The name of the field that says which node an operation works on, or the number of what else it
works on. -/
def Op.targetName : Op → String
  | .subRange .. | .cloneNode .. => "src"
  | _ => "id"

def Op.target : Op → Nat
  | .subRange .. | .cloneNode .. => 1
  | _ => 0

theorem Op.retarget_eq_setField (op : Op) (id : UInt32) :
    op.retarget id = op.setField op.target id.toNat := by
  have hid : id.toNat.toUInt32 = id := UInt32.ofNat_toNat
  cases op <;> simp only [retarget, target, setField, setId, hid]

theorem Op.exists_target (op : Op) :
    ∃ f, op.fields[op.target]? = some f ∧ f.name = op.targetName ∧ f.width = .word := by
  cases op <;> exact ⟨_, rfl, rfl, rfl⟩

theorem Op.changes_retarget (op : Op) (id : UInt32) :
    ∃ place f, f.name = op.targetName ∧ op.Changes place f id.toNat (op.retarget id) := by
  obtain ⟨f, hfound, hname, hword⟩ := op.exists_target
  refine ⟨op.target, f, hname, ?_⟩
  rw [retarget_eq_setField]
  refine changes_setField hfound ?_
  rw [hword]
  exact id.toNat_lt

/-! ## The length of the written form -/

namespace Wire

theorem length_opBytes (op : Op) :
    (opBytes op).length = 4 + (op.fields.map fun f => f.width.bytes).sum := by
  unfold opBytes fieldBytes
  simp [List.length_flatMap]

/-- The count takes eight bytes, and every operation takes its own. -/
theorem length_encode (ops : List Op) :
    (encode ops).length = 8 + (ops.map fun op => (opBytes op).length).sum := by
  rw [encode_eq, List.length_append, length_littleEndian, List.length_flatMap]

end Wire

/-- The bytes of an operation are as many whatever its fields hold. -/
theorem Op.Changes.length_opBytes (h : op.Changes place f value op') :
    (Wire.opBytes op').length = (Wire.opBytes op).length := by
  obtain ⟨hlt, hget⟩ := List.getElem?_eq_some_iff.1 h.found
  have hplace : place < (op.fields.map fun f => f.width.bytes).length := by
    rwa [List.length_map]
  have hwidth : (op.fields.map fun f => f.width.bytes)[place] = f.width.bytes := by
    rw [List.getElem_map, hget]
  rw [Wire.length_opBytes, Wire.length_opBytes, h.fields, List.map_set, ← hwidth,
    List.set_getElem_self]

end RopeStore.Trial
