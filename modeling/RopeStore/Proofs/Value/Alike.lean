import Mathlib.Data.List.Basic
import RopeStore.Proofs.Value.Order

/-!
# Values that differ in unused bytes

* `Value.Alike` : well-formed values that differ in unused bytes at most;
* `Value.Indistinct` : all that can be read from one of two values can be read from the other;
  `Alike.indistinct` : so it is with alike values;
* `Spells.setSize_eq`, `Spells.writeAt_eq` : changes of the payload, told by the bytes in use alone;
  `Spells.setSize_writeAt`, `Spells.writeAt_setSize` : one after the other;
* `EndsAlike` : two ends of a call on alike values; `endsAlike_*` : the calls that change a value.
-/

namespace RopeStore.Value
variable {ρ α : Type} {h : Heap ρ} {v w : Value} {data : List UInt8}

/-- Well-formed values that differ in unused bytes at most. -/
inductive Alike : Value → Value → Prop
  | short {v w : Value} {data : List UInt8} (hv : v.Spells data) (hw : w.Spells data) : Alike v w
  | tree {slot : UInt64} {root : NodeId} (hformed : (Value.tree slot root).Formed) :
    Alike (.tree slot root) (.tree slot root)

theorem Formed.alike (hv : v.Formed) : v.Alike v := by
  cases v with
  | short control payload =>
    obtain ⟨size, hsize, rfl⟩ := hv
    exact .short (spells_short hsize payload) (spells_short hsize payload)
  | tree slot root => exact .tree hv

theorem Alike.root? (hvw : v.Alike w) : w.root? = v.root? := by
  cases hvw with
  | short hv hw => rw [hv.root?, hw.root?]
  | tree hformed => rfl

/-! ## What is read from alike values -/

/-- All that can be read from one of two values can be read from the other. They are equal, and no
third value tells them apart. -/
structure Indistinct (h : Heap ρ) (v w : Value) : Prop where
  isTree : v.isTree = w.isTree
  shortBytes : v.shortBytes? = w.shortBytes?
  length : v.length h = w.length h
  bytes : v.bytes h = w.bytes h
  describe : v.describe h = w.describe h
  paddedBytes : v.paddedBytes = w.paddedBytes
  equal : v.same w = .ok true ∧ w.same v = .ok true
  same : ∀ u : Value, v.same u = w.same u ∧ u.same v = u.same w
  compare : ∀ u : Value, v.compare u = w.compare u ∧ u.compare v = u.compare w

namespace Spells

theorem control (hv : v.Spells data) : v.control = controlFor data.length := by
  obtain ⟨-, payload, rfl, -⟩ := hv.eq_short
  rfl

theorem length (hv : v.Spells data) : v.length h = .ok data.length := by
  rw [Value.length, hv.root?]
  exact hv.size

theorem bytes (hv : v.Spells data) : v.bytes h = .ok data := by
  rw [Value.bytes, hv.root?, hv.2]
  rfl

theorem paddedBytes (hv : v.Spells data) :
    v.paddedBytes = .ok (data ++ .replicate (maxShort - data.length) 0) := by
  obtain ⟨payload, hpayload, hclean⟩ := hv.clean_payload
  rw [Value.paddedBytes, hpayload, ← toList_padded hv.eq_short.1, ← hclean]

theorem indistinct (hv : v.Spells data) (hw : w.Spells data) (h : Heap ρ) : Indistinct h v w where
  isTree := by rw [hv.isTree, hw.isTree]
  shortBytes := by rw [hv.2, hw.2]
  length := by rw [hv.length, hw.length]
  bytes := by rw [hv.bytes, hw.bytes]
  describe := by rw [describe, describe, hv.root?, hw.root?, hv.bytes, hw.bytes]
  paddedBytes := by rw [hv.paddedBytes, hw.paddedBytes]
  equal := by
    rw [hv.same_eq hw, hw.same_eq hv, decide_eq_true rfl]
    exact ⟨rfl, rfl⟩
  same u := by
    rw [same, same, same, same, hv.root?, hw.root?, hv.cleanPayload, hw.cleanPayload, hv.control,
      hw.control]
    cases u.root? <;> exact ⟨rfl, rfl⟩
  compare u := by
    rw [compare, compare, compare, compare, hv.isTree, hw.isTree, hv.cleanPayload, hw.cleanPayload,
      hv.size, hw.size]
    exact ⟨rfl, rfl⟩

end Spells

theorem same_self_tree {slot : UInt64} {root : NodeId} (hv : (Value.tree slot root).Formed) :
    (Value.tree slot root).same (.tree slot root) = .ok true := by
  rw [same, root?_of_formed hv, Value.slot, if_pos (isTree_tree hv)]
  show Except.ok (slot == slot && root == root) = _
  rw [beq_self_eq_true, beq_self_eq_true]
  rfl

theorem Alike.indistinct (hvw : v.Alike w) (h : Heap ρ) : Indistinct h v w := by
  cases hvw with
  | short hv hw => exact hv.indistinct hw h
  | tree hformed =>
    have hequal := same_self_tree hformed
    exact ⟨rfl, rfl, rfl, rfl, rfl, rfl, ⟨hequal, hequal⟩, fun _ => ⟨rfl, rfl⟩, fun _ => ⟨rfl, rfl⟩⟩

/-! ## Changes of the bytes alone -/

theorem spells_padded (hdata : data.length ≤ maxShort) (filler : UInt8) :
    (Value.short (controlFor data.length) (padded data filler)).Spells data := by
  have hspells := spells_short hdata (padded data filler)
  rwa [toList_padded hdata, List.take_left] at hspells

theorem spells_of_ofShort (hv : ofShort data = .ok v) : v.Spells data := by
  rw [ofShort] at hv
  split at hv
  · rename_i hdata
    cases hv
    exact spells_padded hdata poison
  · cases hv

theorem ofShort_eq_ok (hdata : data.length ≤ maxShort) :
    ofShort data = .ok (.short (controlFor data.length) (padded data poison)) := if_pos hdata

section Changes
variable {bytes : List UInt8} {size start : Nat}

theorem setSize_short {was : Nat} (hwas : was ≤ maxShort) (payload : Vector UInt8 15)
    (hsize : size ≤ maxShort) :
    (Value.short (controlFor was) payload).setSize size = ofShort (payload.toList.take size) := by
  have hlength : (payload.toList.take size).length = size := by
    rw [List.length_take, Vector.length_toList]
    exact Nat.min_eq_left hsize
  rw [setSize, payload?, isTree_short hwas, ofShort_eq_ok (by rwa [hlength]), hlength,
    ← cut_eq_padded]
  exact if_pos hsize

theorem writeAt_short (hsize : size ≤ maxShort) (payload : Vector UInt8 15)
    (hfits : start + bytes.length ≤ maxShort) :
    ∃ after : Vector UInt8 15,
      (Value.short (controlFor size) payload).writeAt start bytes =
        .ok (.short (controlFor size) after) ∧
      after.toList =
        payload.toList.take start ++ bytes ++ payload.toList.drop (start + bytes.length) := by
  refine ⟨_, ?_, toList_written hfits payload⟩
  rw [writeAt, Value.payload, payload?, isTree_short hsize]
  exact if_pos hfits

/-- The front of a string after a write depends on the front before, and on what is written. -/
theorem take_written (front back bytes : List UInt8) (start : Nat) :
    ((front ++ back).take start ++ bytes ++ (front ++ back).drop (start + bytes.length)).take
        front.length =
      (front.take start ++ bytes ++ front.drop (start + bytes.length)).take front.length := by
  by_cases hstart : start ≤ front.length
  · have hlong : front.length ≤
        (front.take start ++ bytes ++ front.drop (start + bytes.length)).length := by
      simp only [List.length_append, List.length_take, List.length_drop]
      omega
    rw [List.take_append_of_le_length hstart, List.drop_append, ← List.append_assoc,
      List.take_append_of_le_length hlong]
  · have hover : front.length ≤ start := Nat.le_of_not_le hstart
    have hfirst : (front ++ back).take start = front ++ back.take (start - front.length) := by
      rw [List.take_append, List.take_of_length_le hover]
    rw [hfirst, List.take_of_length_le hover, List.append_assoc, List.append_assoc,
      List.append_assoc, List.take_left, List.take_left]

namespace Spells

/-- A size that is not above the old one leaves a front part, and nothing of what was behind. -/
theorem setSize_eq (hv : v.Spells data) (hsize : size ≤ data.length) :
    v.setSize size = ofShort (data.take size) := by
  obtain ⟨hlength, payload, rfl, htake⟩ := hv.eq_short
  have hfront : payload.toList.take size = data.take size := by
    rw [← htake, List.take_take, Nat.min_eq_left hsize]
  rw [setSize_short hlength payload (Nat.le_trans hsize hlength), hfront]

/-- The bytes in use after a write depend on those before, and on what is written over them. -/
theorem writeAt_eq (hv : v.Spells data) (hfits : start + bytes.length ≤ maxShort) :
    ∃ w, v.writeAt start bytes = .ok w ∧
      w.Spells ((data.take start ++ bytes ++ data.drop (start + bytes.length)).take data.length) := by
  obtain ⟨hlength, payload, rfl, htake⟩ := hv.eq_short
  obtain ⟨after, hrun, hafter⟩ := writeAt_short hlength payload hfits
  have hsplit := List.take_append_drop data.length payload.toList
  rw [htake] at hsplit
  have hspells := spells_short hlength after
  rw [hafter, ← hsplit, take_written] at hspells
  exact ⟨_, hrun, hspells⟩

theorem setSize_of_lt (hv : v.Spells data) (hsize : maxShort < size) :
    v.setSize size = .error (.sizeTooLarge size) := by
  obtain ⟨payload, hpayload, -⟩ := hv.clean_payload
  rw [setSize, hpayload]
  exact if_neg (Nat.not_le_of_lt hsize)

theorem writeAt_of_lt (hv : v.Spells data) (hover : maxShort < start + bytes.length) :
    v.writeAt start bytes = .error .outOfBounds := by
  obtain ⟨payload, hpayload, -⟩ := hv.clean_payload
  rw [writeAt, Value.payload, hpayload]
  exact if_neg (Nat.not_le_of_lt hover)

/-- What is written to the front of a payload and then made its size is all that is left. -/
theorem setSize_writeAt (hv : v.Spells data) (hbytes : bytes.length ≤ maxShort) :
    (v.writeAt 0 bytes >>= fun w => w.setSize bytes.length) = ofShort bytes := by
  have hfits : 0 + bytes.length ≤ maxShort := by rwa [Nat.zero_add]
  obtain ⟨hlength, payload, rfl, -⟩ := hv.eq_short
  obtain ⟨after, hrun, hafter⟩ := writeAt_short hlength payload hfits
  rw [hrun]
  show (Value.short _ after).setSize bytes.length = _
  rw [setSize_short hlength after hbytes, hafter, List.take_zero, List.nil_append, List.take_left]

/-- So it is if the size is set first. -/
theorem writeAt_setSize (hv : v.Spells data) (hbytes : bytes.length ≤ maxShort) :
    (v.setSize bytes.length >>= fun w => w.writeAt 0 bytes) = ofShort bytes := by
  have hfits : 0 + bytes.length ≤ maxShort := by rwa [Nat.zero_add]
  obtain ⟨hlength, payload, rfl, -⟩ := hv.eq_short
  have hsize : (payload.toList.take bytes.length).length = bytes.length := by
    rw [List.length_take, Vector.length_toList]
    exact Nat.min_eq_left hbytes
  have hshort : (payload.toList.take bytes.length).length ≤ maxShort := by rwa [hsize]
  obtain ⟨after, hrun, hafter⟩ := writeAt_short hshort
    (padded (payload.toList.take bytes.length) poison) hfits
  rw [setSize_short hlength payload hbytes, ofShort_eq_ok hshort]
  show (Value.short _ _).writeAt 0 bytes = _
  have hpadded : after = padded bytes poison := by
    apply Vector.toList_inj.1
    rw [hafter, toList_padded hshort, toList_padded hbytes, List.take_zero, List.nil_append,
      Nat.zero_add, List.drop_left' hsize, hsize]
  rw [hrun, ofShort_eq_ok hbytes, hpadded, hsize]

end Spells
end Changes

/-! ## Calls on alike values -/

/-- Two ends of a call: the same answer or the same fault, the same heap, and alike values. -/
def EndsAlike : EStateM.Result Fault (Held ρ) α → EStateM.Result Fault (Held ρ) α → Prop
  | .ok a s, .ok a' s' => a = a' ∧ s.heap = s'.heap ∧ s.value.Alike s'.value
  | .error e s, .error e' s' => e = e' ∧ s.heap = s'.heap ∧ s.value.Alike s'.value
  | _, _ => False

theorem EndsAlike.cases {r r' : EStateM.Result Fault (Held ρ) α} (hends : EndsAlike r r') :
    ∃ heap v w, v.Alike w ∧ ((∃ a, r = .ok a ⟨heap, v⟩ ∧ r' = .ok a ⟨heap, w⟩) ∨
      ∃ fault, r = .error fault ⟨heap, v⟩ ∧ r' = .error fault ⟨heap, w⟩) := by
  rcases r with ⟨a, heap, v⟩ | ⟨fault, heap, v⟩ <;> rcases r' with ⟨a', heap', w⟩ | ⟨fault', heap', w⟩
  case ok.ok =>
    obtain ⟨rfl, rfl, hvw⟩ := hends
    exact ⟨heap, v, w, hvw, Or.inl ⟨a, rfl, rfl⟩⟩
  case error.error =>
    obtain ⟨rfl, rfl, hvw⟩ := hends
    exact ⟨heap, v, w, hvw, Or.inr ⟨fault, rfl, rfl⟩⟩
  all_goals exact hends.elim

section Calls

/-- A call on one and the same value ends in one way, and leaves a well-formed value. -/
theorem endsAlike_self {op : ValueM ρ α} (call : Call) (hv : v.Formed)
    (hop : (call.run : ValueM ρ Unit) = do let _ ← op) :
    EndsAlike (op.run ⟨h, v⟩) (op.run ⟨h, v⟩) := by
  have hends := Call.ends_run hv h call
  rw [Call.Ends, hop] at hends
  have hleaves := leaves_bind.1 hends
  unfold Leaves at hleaves
  cases hrun : op.run ⟨h, v⟩ with
  | ok a s =>
    rw [hrun] at hleaves
    exact ⟨rfl, rfl, Formed.alike hleaves.1⟩
  | error fault s =>
    rw [hrun] at hleaves
    exact ⟨rfl, rfl, Formed.alike hleaves.1.1⟩

theorem endsAlike_setBytes (hvw : v.Alike w) (data : List UInt8) :
    EndsAlike ((setBytes data).run (⟨h, v⟩ : Held ρ)) ((setBytes data).run ⟨h, w⟩) := by
  cases hvw with
  | tree hformed => exact endsAlike_self (.setBytes data) hformed bind_pure_unit.symm
  | short hv hw =>
    rw [setBytes, run_bind_of_run_eq_ok (run_dropRoot_of_none hv.root?),
      run_bind_of_run_eq_ok (run_dropRoot_of_none hw.root?)]
    cases hdata : ofShort data with
    | ok u => exact ⟨rfl, rfl, Formed.alike (spells_of_ofShort hdata).1⟩
    | error fault => exact ⟨rfl, rfl, .short hv hw⟩

theorem endsAlike_makeTree (hvw : v.Alike w) (root : NodeId) :
    EndsAlike ((makeTree root).run (⟨h, v⟩ : Held ρ)) ((makeTree root).run ⟨h, w⟩) := by
  cases hvw with
  | tree hformed => exact endsAlike_self (.makeTree root) hformed bind_pure_unit.symm
  | short hv hw =>
    rw [makeTree, handingOver, run_tryCatch, run_tryCatch,
      run_bind_of_run_eq_ok (run_dropRoot_of_none hv.root?),
      run_bind_of_run_eq_ok (run_dropRoot_of_none hw.root?)]
    exact ⟨rfl, rfl, Formed.alike (formed_ofTree root)⟩

/-- No short value has a root that could be replaced: the new one is given up, and that ends the same
way whatever the value is. -/
theorem run_replaceRoot_short (h : Heap ρ) (root : NodeId) :
    ∃ fault heap, ∀ control payload, (replaceRoot root).run (⟨h, .short control payload⟩ : Held ρ) =
      .error fault ⟨heap, .short control payload⟩ := by
  have hgivenUp (control : UInt8) (payload : Vector UInt8 15) :
      (replaceRoot root).run (⟨h, .short control payload⟩ : Held ρ) =
        (onHeap (Heap.release root) >>= fun _ => throw .rootOfShort : ValueM ρ NodeId).run
          ⟨h, .short control payload⟩ := rfl
  simp only [hgivenUp, EStateM.run_bind, run_onHeap]
  cases (Heap.release root).run h with
  | ok _ heap => exact ⟨.rootOfShort, heap, fun _ _ => rfl⟩
  | error fault heap => exact ⟨fault, heap, fun _ _ => rfl⟩

theorem endsAlike_replaceRoot (hvw : v.Alike w) (root : NodeId) :
    EndsAlike ((replaceRoot root).run (⟨h, v⟩ : Held ρ)) ((replaceRoot root).run ⟨h, w⟩) := by
  cases hvw with
  | tree hformed => exact endsAlike_self (.replaceRoot root) hformed rfl
  | short hv hw =>
    have hspells := And.intro hv hw
    obtain ⟨-, payload, rfl, -⟩ := hv.eq_short
    obtain ⟨-, payload', rfl, -⟩ := hw.eq_short
    obtain ⟨fault, heap, hrun⟩ := run_replaceRoot_short h root
    rw [hrun, hrun]
    exact ⟨rfl, rfl, .short hspells.1 hspells.2⟩

theorem endsAlike_extractRoot (hvw : v.Alike w) :
    EndsAlike (extractRoot.run (⟨h, v⟩ : Held ρ)) (extractRoot.run ⟨h, w⟩) := by
  cases hvw with
  | tree hformed => exact endsAlike_self .extractRoot hformed rfl
  | short hv hw =>
    rw [run_extractRoot_of_none hv.root?, run_extractRoot_of_none hw.root?]
    exact ⟨rfl, rfl, .short hv hw⟩

theorem endsAlike_clear (hvw : v.Alike w) :
    EndsAlike (clear.run (⟨h, v⟩ : Held ρ)) (clear.run ⟨h, w⟩) := endsAlike_setBytes hvw []

end Calls
end RopeStore.Value
