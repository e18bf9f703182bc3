import Mathlib.Data.List.Basic
import Mathlib.Data.List.GetD
import RopeStore.Value.Slot
import RopeStore.Proofs.Value.Roots

/-!
# What a value stands for

* `Value.Meaning` : a byte string with the unused bytes behind it, or a sample slot with a root;
  `Meaning.text`, `Meaning.resize`, `Meaning.overwrite`, `Meaning.resample` : the changes of it;
* `Value.meaning` : what the sixteen bytes of a value stand for;
* `Value.Formed` : the control byte says the form that the other bytes have;
* `Value.Agrees` : everything that can be read from a value is what its meaning says;
  `Formed.agrees` : so it is where the value is well formed;
* `meaning_*` : the meaning of the values that are made, and of those that are changed.
-/

namespace RopeStore.Value
variable {ρ : Type} {v w : Value} {root : NodeId} {data : List UInt8}

/-! ## Meanings -/

/-- What a value stands for. -/
inductive Meaning
  /-- The bytes of a short value, and the unused bytes of its payload. -/
  | string (content spare : List UInt8)
  | tree (slot : UInt64) (root : NodeId)

namespace Meaning

/-- A byte string that was written as a whole. -/
def text (data : List UInt8) : Meaning :=
  .string data (.replicate (maxShort - data.length) poison)

/-- The size of a byte string is set. A longer one takes in unused bytes. -/
def resize (size : Nat) : Meaning → Meaning
  | .string content spare =>
    if size ≤ maxShort then text ((content ++ spare).take size) else .string content spare
  | m => m

/-- Bytes are written over those of a byte string, used and unused ones alike. -/
def overwrite (start : Nat) (data : List UInt8) : Meaning → Meaning
  | .string content spare =>
    if start + data.length ≤ maxShort then
      let all := content ++ spare
      let written := all.take start ++ data ++ all.drop (start + data.length)
      .string (written.take content.length) (written.drop content.length)
    else .string content spare
  | m => m

def resample (record : Option UInt64) : Meaning → Meaning
  | .tree _ root => .tree (record.elim nullSlot (· ||| 1)) root
  | m => m

end Meaning

def meaning : Value → Meaning
  | .short control payload =>
    let size := (Value.short control payload).shortSize
    .string (payload.toList.take size) (payload.toList.drop size)
  | .tree slot root => .tree slot root

/-- The control byte says the form that the other bytes have. -/
def Formed : Value → Prop
  | .short control _ => ∃ size ≤ maxShort, control = controlFor size
  | .tree slot _ => slot &&& 1 = 1

/-- Whatever is read from a value is what its meaning says. -/
def Agrees (h : Heap ρ) (v : Value) : Meaning → Prop
  | .string content spare =>
    v.control &&& 1 = 0 ∧ content.length ≤ maxShort ∧ content.length + spare.length = maxShort ∧
      v.isTree = false ∧ v.root? = none ∧ v.shortBytes? = some content ∧
      v.size = .ok content.length ∧ v.length h = .ok content.length ∧ v.bytes h = .ok content
  | .tree slot root =>
    v.control &&& 1 = 1 ∧ slot &&& 1 = 1 ∧ v.isTree = true ∧ v.root? = some root ∧
      v.shortBytes? = none ∧ v.slot = .ok slot ∧ v.length h = h.length root ∧
      v.bytes h = h.bytes root

/-! ## The control byte -/

theorem controlFor_and_one {size : Nat} (hsize : size ≤ maxShort) :
    controlFor size &&& 1 = 0 ∧ (controlFor size >>> 1).toNat = size := by
  have hall : ∀ n : Fin 16, controlFor n &&& 1 = 0 ∧ (controlFor n >>> 1).toNat = n := by decide
  exact hall ⟨size, Nat.lt_succ_of_le hsize⟩

theorem isTree_short {size : Nat} (hsize : size ≤ maxShort) (payload : Vector UInt8 15) :
    (Value.short (controlFor size) payload).isTree = false := by
  rw [isTree, control, (controlFor_and_one hsize).1]
  rfl

theorem control_tree {slot : UInt64} (hslot : slot &&& 1 = 1) :
    (Value.tree slot root).control &&& 1 = 1 := by
  have hbyte := congrArg UInt64.toUInt8 hslot
  rwa [UInt64.toUInt8_and] at hbyte

theorem isTree_tree {slot : UInt64} (hslot : slot &&& 1 = 1) :
    (Value.tree slot root).isTree = true := by
  rw [isTree, control_tree hslot]
  rfl

theorem meaning_short {size : Nat} (hsize : size ≤ maxShort) (payload : Vector UInt8 15) :
    (Value.short (controlFor size) payload).meaning =
      .string (payload.toList.take size) (payload.toList.drop size) := by
  show Meaning.string (payload.toList.take (controlFor size >>> 1).toNat)
    (payload.toList.drop (controlFor size >>> 1).toNat) = _
  rw [(controlFor_and_one hsize).2]

theorem shortBytes?_short {size : Nat} (hsize : size ≤ maxShort) (payload : Vector UInt8 15) :
    (Value.short (controlFor size) payload).shortBytes? = some (payload.toList.take size) := by
  rw [shortBytes?, payload?, isTree_short hsize]
  show some (payload.toList.take (controlFor size >>> 1).toNat) = _
  rw [(controlFor_and_one hsize).2]

theorem Formed.agrees (hv : v.Formed) (h : Heap ρ) : v.Agrees h v.meaning := by
  cases v with
  | short control payload =>
    obtain ⟨size, hsize, rfl⟩ := hv
    obtain ⟨hbit, hshift⟩ := controlFor_and_one hsize
    have hshort := isTree_short hsize payload
    have hbytes := shortBytes?_short hsize payload
    have hread : (Value.short (controlFor size) payload).size = .ok size := by
      rw [Value.size, hshort]
      show Except.ok (controlFor size >>> 1).toNat = _
      rw [hshift]
    have hlength : (payload.toList.take size).length = size := by
      rw [List.length_take, Vector.length_toList]
      exact Nat.min_eq_left hsize
    rw [meaning_short hsize]
    refine ⟨hbit, by omega, ?_, hshort, rfl, hbytes, by rw [hlength, hread], ?_, ?_⟩
    · rw [hlength, List.length_drop, Vector.length_toList]
      exact Nat.add_sub_cancel' hsize
    · rw [hlength, Value.length, root?]
      exact hread
    · rw [Value.bytes, root?, hbytes]
      rfl
  | tree slot root =>
    have htree : (Value.tree slot root).isTree = true := isTree_tree hv
    have hroot : (Value.tree slot root).root? = some root := if_pos htree
    exact ⟨control_tree hv, hv, htree, hroot, rfl, if_pos htree, by rw [Value.length, hroot],
      by rw [Value.bytes, hroot]⟩

/-! ## Values that are made -/

theorem toList_padded (hdata : data.length ≤ maxShort) (filler : UInt8) :
    (padded data filler).toList = data ++ .replicate (maxShort - data.length) filler := by
  rw [padded, Vector.toList_ofFn]
  apply List.ext_getElem
  · rw [List.length_ofFn, List.length_append, List.length_replicate]
    exact (Nat.add_sub_cancel' hdata).symm
  · intro i hi _
    rw [List.getElem_ofFn, List.getElem_append]
    split
    · rename_i hlt
      rw [List.getD_eq_getElem _ _ hlt]
    · rename_i hge
      rw [List.getD_eq_default _ _ (Nat.le_of_not_lt hge), List.getElem_replicate]

theorem formed_padded (hdata : data.length ≤ maxShort) (filler : UInt8) :
    (Value.short (controlFor data.length) (padded data filler)).Formed :=
  ⟨data.length, hdata, rfl⟩

theorem meaning_padded (hdata : data.length ≤ maxShort) (filler : UInt8) :
    (Value.short (controlFor data.length) (padded data filler)).meaning =
      .string data (.replicate (maxShort - data.length) filler) := by
  rw [meaning_short hdata, toList_padded hdata, List.take_left, List.drop_left]

theorem length_nil_le : ([] : List UInt8).length ≤ maxShort := Nat.zero_le _

theorem formed_new : new.Formed := formed_padded length_nil_le 0

theorem meaning_new : new.meaning = .string [] (.replicate maxShort 0) :=
  meaning_padded length_nil_le 0

theorem formed_cleared : cleared.Formed := formed_padded length_nil_le poison

theorem meaning_cleared : cleared.meaning = .text [] :=
  meaning_padded length_nil_le poison

theorem formed_ofTree (root : NodeId) : (ofTree root).Formed := rfl

theorem meaning_ofTree (root : NodeId) : (ofTree root).meaning = .tree nullSlot root := rfl

/-! ## Values that are changed -/

/-- A change makes a well-formed value with this meaning of `v`, or faults, and then it is the meaning
of `v` that stays. -/
def Turns (v : Value) (m : Meaning) : Except Fault Value → Prop
  | .ok w => w.Formed ∧ w.meaning = m
  | .error _ => v.meaning = m

theorem turns_ofShort (v : Value) (data : List UInt8) :
    v.Turns (if data.length ≤ maxShort then .text data else v.meaning) (ofShort data) := by
  rw [ofShort]
  by_cases hdata : data.length ≤ maxShort
  · rw [if_pos hdata, if_pos hdata]
    exact ⟨formed_padded hdata poison, meaning_padded hdata poison⟩
  · rw [if_neg hdata, if_neg hdata]
    rfl

theorem turns_ofTree (v : Value) (root : NodeId) :
    v.Turns (.tree nullSlot root) (pure (ofTree root)) := ⟨formed_ofTree root, rfl⟩

/-- A payload that is cut is the one of the bytes in front of the cut. -/
theorem cut_eq_padded {size : Nat} (payload : Vector UInt8 15) (filler : UInt8) :
    (Vector.ofFn fun i => if i < size then payload.get i else filler) =
      padded (payload.toList.take size) filler := by
  apply Vector.ext
  intro i hi
  rw [padded, Vector.getElem_ofFn, Vector.getElem_ofFn]
  by_cases hlt : i < size
  · rw [List.getD_eq_getElem _ _ (by simp; omega), if_pos hlt, List.getElem_take,
      Vector.getElem_toList]
    rfl
  · rw [List.getD_eq_default _ _ (by simp; omega), if_neg hlt]

theorem toList_written {start : Nat} (hfits : start + data.length ≤ maxShort)
    (payload : Vector UInt8 15) :
    (Vector.ofFn fun i : Fin 15 =>
      if start ≤ i then data.getD (i - start) payload[i] else payload[i]).toList =
      payload.toList.take start ++ data ++ payload.toList.drop (start + data.length) := by
  have hlength : payload.toList.length = maxShort := Vector.length_toList
  rw [Vector.toList_ofFn]
  apply List.ext_getElem
  · simp only [List.length_ofFn, List.length_append, List.length_take, List.length_drop, hlength]
    unfold maxShort at *
    omega
  · intro i hi hi'
    have hstart : min start maxShort = start := Nat.min_eq_left (Nat.le_of_add_right_le hfits)
    simp only [List.getElem_ofFn, List.getElem_append, List.getElem_take, List.getElem_drop,
      Vector.getElem_toList, List.length_append, List.length_take, hlength, hstart]
    by_cases hfront : i < start
    · rw [if_neg (Nat.not_le_of_lt hfront), dif_pos (by omega), dif_pos hfront]
      rfl
    · rw [if_pos (Nat.le_of_not_lt hfront)]
      by_cases hdata : i < start + data.length
      · rw [dif_pos hdata, dif_neg hfront, List.getD_eq_getElem _ _ (by omega)]
      · have hback : start + data.length + (i - (start + data.length)) = i :=
          Nat.add_sub_cancel' (Nat.le_of_not_lt hdata)
        rw [dif_neg hdata, List.getD_eq_default _ _ (by omega)]
        simp only [hback]
        rfl

theorem turns_setSize (hv : v.Formed) (size : Nat) :
    v.Turns (v.meaning.resize size) (v.setSize size) := by
  cases v with
  | tree slot root => rfl
  | short control payload =>
    obtain ⟨was, hwas, rfl⟩ := hv
    rw [meaning_short hwas, setSize, payload?, isTree_short hwas]
    show Turns _ (if size ≤ maxShort then _ else _) (if size ≤ maxShort then _ else _)
    by_cases hsize : size ≤ maxShort
    · have hlength : (payload.toList.take size).length = size := by
        rw [List.length_take, Vector.length_toList]
        exact Nat.min_eq_left hsize
      have hshort : (payload.toList.take size).length ≤ maxShort := by rwa [hlength]
      have hformed := formed_padded hshort poison
      have hmeaning := meaning_padded hshort poison
      rw [hlength] at hformed hmeaning
      rw [if_pos hsize, if_pos hsize, List.take_append_drop, Meaning.text, hlength]
      show Turns _ _ (.ok (.short _ (Vector.ofFn fun i => if i < size then payload.get i else poison)))
      rw [cut_eq_padded]
      exact ⟨hformed, hmeaning⟩
    · rw [if_neg hsize, if_neg hsize]
      exact meaning_short hwas payload

theorem turns_writeAt (hv : v.Formed) (start : Nat) (data : List UInt8) :
    v.Turns (v.meaning.overwrite start data) (v.writeAt start data) := by
  cases v with
  | tree slot root => rfl
  | short control payload =>
    obtain ⟨size, hsize, rfl⟩ := hv
    rw [meaning_short hsize, writeAt, Value.payload, payload?, isTree_short hsize]
    show Turns _ (if start + data.length ≤ maxShort then _ else _)
      (if start + data.length ≤ maxShort then _ else _)
    by_cases hfits : start + data.length ≤ maxShort
    · have hlength : (payload.toList.take size).length = size := by
        rw [List.length_take, Vector.length_toList]
        exact Nat.min_eq_left hsize
      rw [if_pos hfits, if_pos hfits, List.take_append_drop, hlength, ← toList_written hfits]
      exact ⟨⟨size, hsize, rfl⟩, meaning_short hsize _⟩
    · rw [if_neg hfits, if_neg hfits]
      exact meaning_short hsize payload

theorem turns_setSample (hv : v.Formed) (record : Option UInt64) :
    v.Turns (v.meaning.resample record) (v.setSample record) := by
  cases v with
  | short control payload => rfl
  | tree slot root =>
    have hroot : (Value.tree slot root).root? = some root := if_pos (isTree_tree hv)
    rw [setSample, hroot]
    refine ⟨?_, rfl⟩
    cases record with
    | none => rfl
    | some address =>
      show (address ||| 1) &&& 1 = 1
      rw [← UInt64.toNat_inj]
      simp

end RopeStore.Value
