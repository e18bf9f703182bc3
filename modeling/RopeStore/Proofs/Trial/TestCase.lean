import Mathlib.Data.List.Basic
import RopeStore.Trial.TestCase
import RopeStore.Proofs.Trial.Wire

/-!
# What a mutated test case holds

The mutation of a test case leaves out operations until the list fits into its buffer. The buffer is
as long as the longer of the old test case and of what the new one may have, and the size that is
handed back is cut to the latter afterwards.

* `Wire.writeInto_of_le`, `Wire.writeInto_of_lt` : a list is written where it fits, and the buffer
  keeps its length either way;
* `Wire.decode_of_cutShort` : the written form of a list without its last bytes is none;
* `LongestFit room ops kept` : `kept` is the longest beginning of `ops` whose written form has at most
  `room` bytes; `writeTrimmed_cases` : this is what is written;
* `decodes_unless_cut` : the new test case is a beginning of the mutated list where its written form is
  not longer than the new test case may be, and no test case at all where it is;
* `cut_does_not_decode` : the latter happens.
-/

namespace RopeStore.Trial.Wire
variable {ops : List Op} {buffer part : List UInt8} {written : List (List UInt8)}

/-! ## Writing into a buffer -/

theorem writeChunks_of_le (h : written.flatten.length ≤ buffer.length) :
    writeChunks written buffer = (some written.flatten.length,
      written.flatten ++ buffer.drop written.flatten.length) := by
  induction written generalizing buffer with
  | nil => simp [writeChunks]
  | cons chunk rest ih =>
    rw [List.flatten_cons, List.length_append] at h
    have hrest : rest.flatten.length ≤ (buffer.drop chunk.length).length := by
      rw [List.length_drop]
      omega
    rw [writeChunks, if_pos (by omega), ih hrest]
    simp [List.drop_drop]

theorem writeChunks_of_lt (h : buffer.length < written.flatten.length) :
    ∃ after, writeChunks written buffer = (none, after) ∧ after.length = buffer.length := by
  induction written generalizing buffer with
  | nil => simp at h
  | cons chunk rest ih =>
    rw [writeChunks]
    split
    · rename_i hchunk
      -- The chunk is written, and a later one does not fit.
      have hrest : (buffer.drop chunk.length).length < rest.flatten.length := by
        rw [List.flatten_cons, List.length_append] at h
        rw [List.length_drop]
        omega
      obtain ⟨after, hafter, hlength⟩ := ih hrest
      rw [List.length_drop] at hlength
      refine ⟨chunk ++ after, by rw [hafter]; rfl, ?_⟩
      rw [List.length_append]
      omega
    · exact ⟨buffer, rfl, rfl⟩

theorem writeInto_of_le (h : (encode ops).length ≤ buffer.length) :
    writeInto ops buffer =
      (some (encode ops).length, encode ops ++ buffer.drop (encode ops).length) :=
  writeChunks_of_le h

theorem writeInto_of_lt (h : buffer.length < (encode ops).length) :
    ∃ after, writeInto ops buffer = (none, after) ∧ after.length = buffer.length :=
  writeChunks_of_lt h

/-! ## Written forms -/

theorem length_le_length_encode (ops : List Op) : ops.length ≤ (encode ops).length := by
  rw [encode_eq, List.length_append]
  have hops : ops.length ≤ (ops.flatMap opBytes).length := by
    induction ops with
    | nil => simp
    | cons op rest ih =>
      simp only [List.flatMap_cons, List.length_append, List.length_cons, opBytes,
        length_littleEndian]
      omega
  omega

theorem NamesUnknownVariant.append (h : NamesUnknownVariant part) (rest : List UInt8) :
    NamesUnknownVariant (part ++ rest) := by
  obtain ⟨_, ⟨count, done, hcount, hdone, rfl⟩, index, more, hindex, hword, rfl⟩ := h
  exact ⟨_, ⟨count, done, hcount, hdone, by simp only [List.append_assoc]⟩, index, more ++ rest,
    hindex, hword, List.append_assoc ..⟩

theorem decode_of_cutShort (hword : ops.length < wordBound) (hcut : CutShort part (encode ops)) :
    decode part = .error .unexpectedEnd := by
  obtain ⟨b, more, hwhole⟩ := hcut
  have hread : decode (encode ops) = .ok (ops, []) := by
    simpa using decode_encode hword []
  cases hrun : decode part with
  | error e =>
    cases e with
    | unexpectedEnd => rfl
    | unexpectedVariant =>
      have hnames := (decode_eq_unexpectedVariant_iff.1 hrun).append (b :: more)
      rw [← hwhole, ← decode_eq_unexpectedVariant_iff, hread] at hnames
      cases hnames
  | ok found =>
    obtain ⟨ops', rest⟩ := found
    obtain ⟨hword', rfl⟩ := decode_eq_ok hrun
    have hprefix : encode ops' <+: encode ops := ⟨rest ++ b :: more, by rw [hwhole]; simp⟩
    let shorter : OpList := ⟨ops', hword'⟩
    let longer : OpList := ⟨ops, hword⟩
    have heq : shorter = longer := encode_prefix_iff.1 hprefix
    replace heq : ops' = ops := congrArg Subtype.val heq
    have hlength := congrArg List.length hwhole
    simp [heq] at hlength

end RopeStore.Trial.Wire

namespace RopeStore.Trial.TestCase
open Wire (encode writeInto writeInto_of_le writeInto_of_lt CutShort)
variable {room : Nat} {ops kept : List Op} {buffer after : List UInt8}

/-! ## The list that is written -/

/-- The longest beginning of `ops` whose written form has at most `room` bytes is `kept`. -/
structure LongestFit (room : Nat) (ops kept : List Op) : Prop where
  isPrefix : kept <+: ops
  fits : (encode kept).length ≤ room
  longest : ∀ more, more <+: ops → (encode more).length ≤ room → more <+: kept

theorem LongestFit.concat {last : Op} (h : LongestFit room ops kept)
    (hlong : room < (encode (ops ++ [last])).length) : LongestFit room (ops ++ [last]) kept where
  isPrefix := h.isPrefix.trans (List.prefix_append ops [last])
  fits := h.fits
  longest := by
    intro more hmore hfits
    rcases List.prefix_concat_iff.1 hmore with rfl | hmore
    · omega
    · exact h.longest more hmore hfits

/-- The longest beginning that fits is written, unless not even the length of a list does. -/
theorem writeTrimmed_cases (backwards : List Op) (buffer : List UInt8) :
    (∃ kept rest, LongestFit buffer.length backwards.reverse kept ∧
      writeTrimmed buffer backwards = (some (encode kept).length, encode kept ++ rest) ∧
      (encode kept ++ rest).length = buffer.length) ∨
    buffer.length < (encode []).length ∧ ∃ after, writeTrimmed buffer backwards = (none, after) := by
  induction backwards generalizing buffer with
  | nil =>
    rw [writeTrimmed]
    rcases Nat.lt_or_ge buffer.length (encode []).length with hlt | hle
    · obtain ⟨after, hafter, -⟩ := writeInto_of_lt hlt
      exact .inr ⟨hlt, after, hafter⟩
    · refine .inl ⟨[], _, ⟨List.nil_prefix, hle, fun _ h _ => h⟩, writeInto_of_le hle, ?_⟩
      rw [List.length_append, List.length_drop]
      omega
  | cons last before ih =>
    rw [writeTrimmed, List.reverse_cons]
    rcases Nat.lt_or_ge buffer.length (encode (before.reverse ++ [last])).length with hlt | hle
    · obtain ⟨after, hafter, hlength⟩ := writeInto_of_lt hlt
      rw [hafter]
      rcases ih after with ⟨kept, rest, hfit, hrun, hrest⟩ | ⟨hshort, hnone⟩
      · rw [hlength] at hfit hrest
        exact .inl ⟨kept, rest, hfit.concat hlt, hrun, hrest⟩
      · rw [hlength] at hshort
        exact .inr ⟨hshort, hnone⟩
    · rw [writeInto_of_le hle]
      refine .inl ⟨_, _, ⟨List.prefix_rfl, hle, fun _ h _ => h⟩, rfl, ?_⟩
      rw [List.length_append, List.length_drop]
      omega

/-! ## The new test case -/

def mutated (buffer : List UInt8) (size maxSize : Nat) (seed : UInt32) : List Op :=
  ((mutate (decide (maxSize < size)) (decodeOrEmpty buffer)).run (.ofSeed seed.toUInt64)).1

/-- Unless the mutation of bytes takes over at once, the mutated list is written as far as it fits. -/
theorem mutateBuffer_eq {size maxSize : Nat} {seed : UInt32} (hseed : oneBits seed % 8 ≠ 0) :
    mutateBuffer buffer size maxSize seed =
      match writeTrimmed buffer (mutated buffer size maxSize seed).reverse with
      | (some count, after) => .done (min count maxSize) after
      | (none, _) => .fallback := by
  rw [mutateBuffer, if_neg hseed]
  rfl

theorem mutateBuffer_eq_done {size maxSize n : Nat} {seed : UInt32}
    (h : mutateBuffer buffer size maxSize seed = .done n after) :
    ∃ kept rest, LongestFit buffer.length (mutated buffer size maxSize seed) kept ∧
      n = min (encode kept).length maxSize ∧ after = encode kept ++ rest ∧
      after.length = buffer.length := by
  by_cases hseed : oneBits seed % 8 = 0
  · rw [mutateBuffer, if_pos hseed] at h
    cases h
  · have hcases := writeTrimmed_cases (mutated buffer size maxSize seed).reverse buffer
    rw [List.reverse_reverse] at hcases
    rw [mutateBuffer_eq hseed] at h
    rcases hcases with ⟨kept, rest, hfit, hrun, hlength⟩ | ⟨-, _, hrun⟩
    · rw [hrun] at h
      cases h
      exact ⟨kept, rest, hfit, rfl, rfl, hlength⟩
    · rw [hrun] at h
      cases h

/-- **A mutated test case is at most as long as it may be. It is the longest beginning of the mutated
list that fits into the buffer, and it can be run, exactly where the written form of this is at most
as long as a test case may be; otherwise it ends too early and is not a test case.** Only a test case
that was longer than the new one may be can come to this. -/
theorem decodes_unless_cut {size maxSize n : Nat} {seed : UInt32}
    (hbuffer : buffer.length = max size maxSize) (hword : buffer.length < wordBound)
    (hdone : mutateBuffer buffer size maxSize seed = .done n after) :
    n ≤ maxSize ∧ ∃ kept, LongestFit buffer.length (mutated buffer size maxSize seed) kept ∧
      ((encode kept).length ≤ maxSize →
        Wire.decode (after.take n) = .ok (kept, []) ∧
          run (after.take n) = some (Trial.run payloadLimit kept)) ∧
      (maxSize < (encode kept).length →
        maxSize < size ∧ Wire.decode (after.take n) = .error .unexpectedEnd ∧
          run (after.take n) = none) := by
  obtain ⟨kept, rest, hfit, rfl, rfl, hlength⟩ := mutateBuffer_eq_done hdone
  have hkept : kept.length < wordBound :=
    ((Wire.length_le_length_encode kept).trans hfit.fits).trans_lt hword
  refine ⟨Nat.min_le_right .., kept, hfit, fun hroom => ?_, fun hcut => ?_⟩
  · have hread : Wire.decode (encode kept) = .ok (kept, []) := by
      simpa using Wire.decode_encode hkept []
    rw [Nat.min_eq_left hroom, List.take_left, run, hread]
    exact ⟨rfl, rfl⟩
  · have hfits := hfit.fits
    have hshort : CutShort ((encode kept).take maxSize) (encode kept) := by
      refine ⟨(encode kept)[maxSize], (encode kept).drop (maxSize + 1), ?_⟩
      rw [List.getElem_cons_drop, List.take_append_drop]
    rw [Nat.min_eq_right hcut.le, List.take_append_of_le_length hcut.le, run,
      Wire.decode_of_cutShort hkept hshort]
    exact ⟨by omega, rfl, rfl⟩

/-- A test case of two operations in a buffer that it fills, where the new one may have 20 bytes. -/
def tightBuffer : List UInt8 := encode [.newSnapshot 1, .newHandle 2]

theorem decodes_unless_cut_tight :
    tightBuffer.length = max 24 20 ∧ tightBuffer.length < wordBound ∧
    mutateBuffer tightBuffer 24 20 1 =
      .done 16 (encode [.newHandle 2] ++ [8, 0, 0, 0, 2, 0, 0, 0]) ∧ 16 ≤ 20 ∧
    ∃ kept, LongestFit tightBuffer.length (mutated tightBuffer 24 20 1) kept ∧
      ((encode kept).length ≤ 20 → Wire.decode (encode [.newHandle 2]) = .ok (kept, []) ∧
        run (encode [.newHandle 2]) = some (Trial.run payloadLimit kept)) := by
  have hdone : mutateBuffer tightBuffer 24 20 1 =
      .done 16 (encode [.newHandle 2] ++ [8, 0, 0, 0, 2, 0, 0, 0]) := by decide +kernel
  obtain ⟨hle, kept, hfit, hread, -⟩ := decodes_unless_cut (by decide) (by decide) hdone
  exact ⟨by decide, by decide, hdone, hle, kept, hfit, hread⟩

/-- With another seed the mutated list needs all 24 bytes. It is written, and cut to 20. -/
theorem cut_does_not_decode :
    ∃ after, mutateBuffer tightBuffer 24 20 2 = .done 20 after ∧
      Wire.decode (after.take 20) = .error .unexpectedEnd ∧ run (after.take 20) = none := by
  have hdone : mutateBuffer tightBuffer 24 20 2 = .done 20 tightBuffer := by decide +kernel
  have hread : Wire.decode (tightBuffer.take 20) = .error .unexpectedEnd := by decide +kernel
  exact ⟨tightBuffer, hdone, hread, by rw [run, hread]⟩

end RopeStore.Trial.TestCase
