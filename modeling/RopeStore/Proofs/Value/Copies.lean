import Mathlib.Data.List.Basic
import Mathlib.Order.Bounds.Defs
import RopeStore.Proofs.Heap.Buffers
import RopeStore.Proofs.Value.Alike

/-!
# Copies read back

There are four places for a copy, and the number of bytes alone says which it is: a short value, a
regular buffer, a large buffer, an external node of its own. A buffer that is asked for is cut to the
limit of its kind without a word, and a buffer that was cut would hold a part of the bytes only. So the
limit by which the place is chosen must be the one that the buffer is cut to.

* `SizeClass.roomFor_max_minLength` : every buffer has room for the least payload;
* `Heap.copyBody data` : the body of a copy of `data`, and `run_ofBytes_eq_ok` : the copy is one new node
  with this body, whatever the heap is;
* `Heap.reads_push` : what a new node that holds its bytes itself reads as;
* `Value.run_copy_of_le`, `Value.run_copy_of_lt` : the two forms of a copied value;
* `copies_read_back` : in every heap, what was copied in is read out.
-/

namespace RopeStore

/-! ## Room -/

theorem SizeClass.roomFor_max_minLength (length : Nat) :
    roomFor (max minLength length) = roomFor length := by
  have hmin : minLength = 16 := rfl
  obtain ⟨-, -, -, -, -, -, -, hhead⟩ := bands
  ext tag
  rw [mem_roomFor_iff, mem_roomFor_iff]
  refine and_congr_right fun htag => ?_
  rw [isBuffer_iff] at htag
  rcases sizeFor_cases tag with h | h | h <;> omega

namespace Heap
variable {ρ : Type}

/-! ## The node of a copy -/

/-- The body of a copy: the smallest buffer with room for the bytes, and an external node where no
buffer has. -/
def copyBody (data : List UInt8) : Body ρ :=
  if data.length ≤ SizeClass.maxLargeLength then
    .buffer (SizeClass.leastFor (max SizeClass.minLength data.length)) data
  else .external data .copied

theorem isLeast_copyBody {data : List UInt8} (hlen : data.length ≤ SizeClass.maxLargeLength) :
    IsLeast (SizeClass.roomFor data.length)
      (SizeClass.leastFor (max SizeClass.minLength data.length)) := by
  have hmin : SizeClass.minLength ≤ SizeClass.maxLargeLength := by decide
  rw [← SizeClass.roomFor_max_minLength]
  apply SizeClass.isLeast_leastFor <;> omega

/-- The empty buffer for a copy is the one that was asked for. No limit cuts the request. -/
theorem run_newBufferWithin_fill {limit : Nat} {data : List UInt8}
    (hlo : SizeClass.minLength ≤ limit) (hhi : limit ≤ SizeClass.maxLargeLength)
    (hlen : data.length ≤ limit) (h : Heap ρ) :
    (newBufferWithin limit data.length >>= fun id => fill id data).run h =
      .ok h.next (h.push ⟨.fresh, copyBody data⟩) := by
  have hlarge : data.length ≤ SizeClass.maxLargeLength := by omega
  obtain ⟨htag, hfits⟩ := SizeClass.mem_roomFor_iff.1 (isLeast_copyBody hlarge).1
  have hrun := run_newBufferWithin_eq_ok hlo hhi data.length h
  rw [Nat.min_eq_left hlen] at hrun
  rw [run_bind_of_run_eq_ok hrun, run_fill htag hfits, copyBody, if_pos hlarge]

/-- A copy is one new node, in every heap. -/
theorem run_ofBytes_eq_ok (data : List UInt8) (h : Heap ρ) :
    (ofBytes data).run h = .ok h.next (h.push ⟨.fresh, copyBody data⟩) := by
  unfold ofBytes
  by_cases hsmall : data.length ≤ SizeClass.maxLength
  · rw [if_pos hsmall]
    exact run_newBufferWithin_fill (by decide) (by decide) hsmall h
  · rw [if_neg hsmall]
    by_cases hlarge : data.length ≤ SizeClass.maxLargeLength
    · rw [if_pos hlarge]
      exact run_newBufferWithin_fill (by decide) (by decide) hlarge h
    · rw [if_neg hlarge, copyBody, if_neg hlarge]
      rfl

/-! ## Reading a new node -/

theorem stored?_copyBody (data : List UInt8) :
    (copyBody data : Body ρ).stored? = some data := by
  unfold copyBody
  split <;> rfl

theorem kind_copyBody (data : List UInt8) :
    (copyBody data : Body ρ).kind =
      .ok (if data.length ≤ SizeClass.maxLargeLength then .buffer else .external) := by
  unfold copyBody
  split <;> rfl

/-- A new node that holds its bytes itself reads as these bytes. -/
theorem reads_push (h : Heap ρ) (refs : RefCount) {b : Body ρ} {data : List UInt8}
    (hb : b.stored? = some data) :
    (h.push ⟨refs, b⟩).bytes h.next = .ok data ∧
      (h.push ⟨refs, b⟩).length h.next = .ok data.length := by
  have hbody : (h.push ⟨refs, b⟩).body? h.next = some b := by rw [body?_push, if_pos rfl]
  rw [bytes, size_push, bytesWithin, body_eq_ok hbody, length_eq_ok hbody]
  cases b with
  | buffer tag bytes =>
    cases hb
    exact ⟨rfl, rfl⟩
  | external bytes keeper =>
    cases hb
    exact ⟨rfl, rfl⟩
  | view start length child => cases hb
  | malformed tag length => cases hb

end Heap

/-! ## The value of a copy -/

namespace Value
variable {ρ : Type}

theorem run_copy_of_le {data : List UInt8} (hlen : data.length ≤ maxShort) (h : Heap ρ) :
    (copy data).run h = .ok (.short (controlFor data.length) (padded data poison)) h := by
  unfold copy
  rw [if_pos hlen, ofShort_eq_ok hlen]
  rfl

theorem run_copy_of_lt {data : List UInt8} (hlen : maxShort < data.length) (h : Heap ρ) :
    (copy data).run h = .ok (ofTree h.next) (h.push ⟨.fresh, Heap.copyBody data⟩) := by
  unfold copy
  rw [if_neg (by omega), run_bind_of_run_eq_ok (Heap.run_ofBytes_eq_ok data h)]
  rfl

theorem unsampled_ofTree (root : NodeId) :
    (ofTree root).isSampled = .ok false ∧ (ofTree root).sample = .ok none := by
  have hslot : (ofTree root).slot = .ok nullSlot := if_pos (isTree_nullSlot root)
  rw [isSampled, sample, hslot]
  exact ⟨rfl, rfl⟩

/-- **Bytes that are copied are read back, in every heap and for every number of them.** A copy as a node
is one new node with one reference: a buffer with the least tag that has room for the bytes, as long as
one of the tags has, and an external node with a copy of its own beyond that. A copy as a value is a
short value up to 15 bytes, for which the heap stays as it is, and else a tree over that very node that
is not sampled. -/
theorem copies_read_back (h : Heap ρ) (data : List UInt8) :
    (∃ body : Body ρ,
      (Heap.ofBytes data).run h = .ok h.next (h.push ⟨.fresh, body⟩) ∧
      h.find? h.next = none ∧ RefCount.fresh.get = 1 ∧ RefCount.fresh.isOne = true ∧
      (h.push ⟨.fresh, body⟩).bytes h.next = .ok data ∧
      (h.push ⟨.fresh, body⟩).length h.next = .ok data.length ∧
      (body.kind = .ok .buffer ↔ data.length ≤ 262128) ∧
      (data.length ≤ 262128 →
        ∃ tag, body = .buffer tag data ∧ IsLeast (SizeClass.roomFor data.length) tag) ∧
      (262128 < data.length → body = .external data .copied) ∧
      (15 < data.length →
        (copy data).run h = .ok (ofTree h.next) (h.push ⟨.fresh, body⟩))) ∧
    ∃ v h', (copy data).run h = .ok v h' ∧ v.Formed ∧
      v.bytes h' = .ok data ∧ v.length h' = .ok data.length ∧
      (v.isTree = false ↔ data.length ≤ 15) ∧
      (data.length ≤ 15 → v.shortBytes? = some data ∧ h' = h) ∧
      (15 < data.length →
        v.root? = some h.next ∧ v.isSampled = .ok false ∧ v.sample = .ok none) := by
  have hlarge : SizeClass.maxLargeLength = 262128 := rfl
  have hshort : maxShort = 15 := rfl
  obtain ⟨hbytes, hlength⟩ := Heap.reads_push h .fresh (Heap.stored?_copyBody data)
  refine ⟨⟨Heap.copyBody data, Heap.run_ofBytes_eq_ok data h, Heap.find?_next h, rfl, rfl,
    hbytes, hlength, ?_, fun hlen => ?_, fun hlen => ?_, fun hlen => run_copy_of_lt hlen h⟩, ?_⟩
  · rw [Heap.kind_copyBody, hlarge]
    split <;> simp_all
  · exact ⟨_, if_pos hlen, Heap.isLeast_copyBody hlen⟩
  · exact if_neg (by omega)
  · by_cases hlen : data.length ≤ maxShort
    · have hspells := spells_padded hlen poison
      refine ⟨_, h, run_copy_of_le hlen h, hspells.1, hspells.bytes, hspells.length, ?_,
        fun _ => ⟨hspells.2, rfl⟩, fun hlong => ?_⟩
      · rw [hspells.isTree]
        exact iff_of_true rfl hlen
      · omega
    · have hroot : (ofTree h.next).root? = some h.next := if_pos (isTree_nullSlot _)
      refine ⟨_, _, run_copy_of_lt (by omega) h, formed_ofTree h.next, ?_, ?_, ?_,
        fun hle => absurd hle hlen, fun _ => ⟨hroot, unsampled_ofTree h.next⟩⟩
      · rw [Value.bytes, hroot]
        exact hbytes
      · rw [Value.length, hroot]
        exact hlength
      · rw [isTree_nullSlot]
        exact iff_of_false (by simp) hlen

end Value
end RopeStore
