import Mathlib.Data.List.Basic
import Mathlib.Order.Bounds.Defs
import RopeStore.Proofs.Heap.Create

/-!
# Buffers made to measure

A request for a buffer is cut to what buffers can hold, a header is added, the sum is rounded up to a
size class, and the class becomes the one byte of the tag. Nothing is lost on this way.

* `run_newBufferWithin_isLeast` : an empty buffer has the least tag with room for the request, and no
  more room than the limit;
* `buffers_are_made_to_measure` : so every request is answered with a buffer, whatever the heap is; only
  bytes that no regular buffer holds are refused.
-/

namespace RopeStore.Heap
open SizeClass (roomFor capacityFor)
variable {ρ : Type}

/-- Where the limit is the payload of a size class, no buffer has more room than that. -/
theorem run_newBufferWithin_isLeast {limit : Nat} {last : UInt8} (hlo : SizeClass.minLength ≤ limit)
    (hlast : SizeClass.isBuffer last = true)
    (hsize : SizeClass.sizeFor last = limit + SizeClass.headerSize) (length : Nat) (h : Heap ρ) :
    ∃ tag capacity,
      (newBufferWithin limit length).run h = .ok h.next (h.push ⟨.fresh, .buffer tag []⟩) ∧
      IsLeast (roomFor (max SizeClass.minLength (min length limit))) tag ∧
      capacityFor tag = .ok capacity ∧ capacity ≤ limit := by
  have hmax : SizeClass.maxLargeLength + SizeClass.headerSize = SizeClass.maxLargeSize := rfl
  have hlarge := SizeClass.sizeFor_le_maxLargeSize hlast
  have hlo' : SizeClass.minLength ≤ max SizeClass.minLength (min length limit) := by omega
  have hleast := SizeClass.isLeast_leastFor hlo' (by omega)
  obtain ⟨htag, hroom⟩ := SizeClass.mem_roomFor_iff.1 hleast.1
  have hle := SizeClass.sizeFor_leastFor_le hlo'
    (SizeClass.mem_roomFor_iff.2 ⟨hlast, by omega⟩)
  exact ⟨_, _, run_newBufferWithin_eq_ok hlo (by omega) length h, hleast,
    SizeClass.capacityFor_eq_ok htag, by omega⟩

theorem run_newBuffer_isLeast (length : Nat) (h : Heap ρ) :
    ∃ tag capacity,
      (newBuffer length).run h = .ok h.next (h.push ⟨.fresh, .buffer tag []⟩) ∧
      IsLeast (roomFor (max 16 (min length 4080))) tag ∧
      capacityFor tag = .ok capacity ∧ capacity ≤ 4080 :=
  run_newBufferWithin_isLeast (by decide)
    (by decide : SizeClass.isBuffer (SizeClass.tagForUnchecked SizeClass.maxSize) = true) (by decide)
    length h

theorem run_newLargeBuffer_isLeast (length : Nat) (h : Heap ρ) :
    ∃ tag capacity,
      (newLargeBuffer length).run h = .ok h.next (h.push ⟨.fresh, .buffer tag []⟩) ∧
      IsLeast (roomFor (max 16 (min length 262128))) tag ∧
      capacityFor tag = .ok capacity ∧ capacity ≤ 262128 :=
  run_newBufferWithin_isLeast (by decide)
    (by decide : SizeClass.isBuffer SizeClass.lastBufferTag = true) (by decide) length h

/-- A buffer with given bytes has the class of an empty one for all the bytes that were asked for. -/
theorem run_bufferWithExtra_isLeast {data : List UInt8} (hlen : data.length ≤ 4080) (extra : Nat)
    (h : Heap ρ) :
    ∃ tag capacity,
      (bufferWithExtra data extra).run h = .ok h.next (h.push ⟨.fresh, .buffer tag data⟩) ∧
      IsLeast (roomFor (max 16 (min (data.length + extra) 4080))) tag ∧
      capacityFor tag = .ok capacity ∧ min (data.length + extra) 4080 ≤ capacity := by
  obtain ⟨tag, capacity, hrun, hleast, hcapacity, -⟩ :=
    run_newBuffer_isLeast (min (data.length + extra) (wordBound - 1)) h
  -- a sum that is no word any more is cut to the greatest payload as well
  have hsum : min (min (data.length + extra) (wordBound - 1)) 4080 =
      min (data.length + extra) 4080 := by
    have := wordBound_eq
    omega
  rw [hsum] at hleast
  obtain ⟨-, room, hroom, hle⟩ := hleast.1
  rw [hcapacity] at hroom
  cases hroom
  exact ⟨tag, capacity, run_bufferWithExtra_of_run_newBuffer hlen hrun, hleast, hcapacity, by omega⟩

/-- **Every request for a buffer is answered, in every heap, with one new node that has one reference:
an empty buffer whose tag is the least one with room for the request, cut to the least and the greatest
payload. A buffer with given bytes is refused exactly where they are too many for a regular buffer, and
else it holds just these bytes and has room for the others that were asked for.** -/
theorem buffers_are_made_to_measure (h : Heap ρ) (length extra : Nat) (data : List UInt8) :
    (∃ tag capacity,
      (newBuffer length).run h = .ok h.next (h.push ⟨.fresh, .buffer tag []⟩) ∧
      IsLeast (roomFor (max 16 (min length 4080))) tag ∧
      capacityFor tag = .ok capacity ∧ capacity ≤ 4080) ∧
    (∃ tag capacity,
      (newLargeBuffer length).run h = .ok h.next (h.push ⟨.fresh, .buffer tag []⟩) ∧
      IsLeast (roomFor (max 16 (min length 262128))) tag ∧
      capacityFor tag = .ok capacity ∧ capacity ≤ 262128) ∧
    ((∃ fault h', (bufferWithExtra data extra).run h = .error fault h') ↔ 4080 < data.length) ∧
    (4080 < data.length →
      (bufferWithExtra data extra).run h = .error (.bufferTooSmall data.length) h) ∧
    (data.length ≤ 4080 → ∃ tag capacity,
      (bufferWithExtra data extra).run h = .ok h.next (h.push ⟨.fresh, .buffer tag data⟩) ∧
      IsLeast (roomFor (max 16 (min (data.length + extra) 4080))) tag ∧
      capacityFor tag = .ok capacity ∧ min (data.length + extra) 4080 ≤ capacity) ∧
    RefCount.fresh.isOne = true ∧ h.find? h.next = none := by
  have hbad := fun hlen : 4080 < data.length => run_bufferWithExtra_of_lt hlen extra h
  have hgood := fun hlen : data.length ≤ 4080 => run_bufferWithExtra_isLeast hlen extra h
  have hiff : (∃ fault h', (bufferWithExtra data extra).run h = .error fault h') ↔
      4080 < data.length := by
    refine ⟨fun ⟨fault, h', hrun⟩ => Nat.lt_of_not_le fun hlen => ?_, fun hlen => ⟨_, h, hbad hlen⟩⟩
    obtain ⟨tag, capacity, hok, -⟩ := hgood hlen
    rw [hrun] at hok
    cases hok
  exact ⟨run_newBuffer_isLeast length h, run_newLargeBuffer_isLeast length h, hiff, hbad, hgood, rfl,
    find?_next h⟩

/-- One byte more than the largest class of the first band holds takes a class of the second. -/
example :
    (newBuffer 496).run (initial : Heap Nat) =
      .ok ⟨1⟩ (initial.push ⟨.fresh, .buffer 64 []⟩) ∧
    (newBuffer 497).run (initial : Heap Nat) =
      .ok ⟨1⟩ (initial.push ⟨.fresh, .buffer 65 []⟩) := ⟨rfl, rfl⟩

end RopeStore.Heap
