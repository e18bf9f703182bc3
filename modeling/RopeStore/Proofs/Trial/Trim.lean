import Mathlib.Data.List.Basic
import Mathlib.Data.List.Induction
import RopeStore.Proofs.Trial.TestCase

/-!
# Leaving out operations until the list fits

The loop writes the list into the buffer. Where it does not fit, the attempt has left the front of a
longer written form behind; the last operation is left out, and the next attempt begins.

* `trimWithin attempts ops buffer` : what the loop comes to with at most so many attempts;
* `LongestFit.eq_of_fits`, `LongestFit.of_concat`, `LongestFit.unique` : which list the longest fit is;
* `trimWithin_of_longestFit` : the loop needs one attempt more than there are operations to leave out,
  and comes to what `writeTrimmed` gives;
* `writeInto_of_lt_eight`, `trimWithin_of_lt_eight` : in less than eight bytes nothing is ever written;
* `trims_to_the_longest_fit` : the loop ends, what it keeps is the longest beginning that fits, and this
  stands at the front of the buffer.
-/

namespace RopeStore.Trial.TestCase
open Wire (encode writeInto writeInto_of_le writeInto_of_lt)
variable {room : Nat} {ops kept : List Op} {buffer : List UInt8}

/-! ## The loop, attempt by attempt -/

/-- What the loop comes to with at most `attempts` attempts to write: the number of bytes written, if even
one list fits, and the buffer. -/
def trimWithin : Nat → List Op → List UInt8 → Option (Option Nat × List UInt8)
  | 0, _, _ => none
  | attempts + 1, ops, buffer =>
    match writeInto ops buffer with
    | (some count, after) => some (some count, after)
    | (none, after) =>
      if ops.isEmpty then some (none, after) else trimWithin attempts ops.dropLast after

/-! ## The longest fit -/

namespace LongestFit

theorem eq_of_fits (h : LongestFit room ops kept) (hfits : (encode ops).length ≤ room) :
    kept = ops := by
  have hops := h.longest ops List.prefix_rfl hfits
  exact h.isPrefix.eq_of_length (Nat.le_antisymm h.isPrefix.length_le hops.length_le)

theorem unique {kept' : List Op} (h : LongestFit room ops kept) (h' : LongestFit room ops kept') :
    kept = kept' := by
  have hle := (h.longest kept' h'.isPrefix h'.fits).length_le
  have hge := h'.longest kept h.isPrefix h.fits
  exact hge.eq_of_length (Nat.le_antisymm hge.length_le hle)

/-- A list that does not fit has the longest fit of the list without its last operation. -/
theorem of_concat {last : Op} (h : LongestFit room (ops ++ [last]) kept)
    (hlong : room < (encode (ops ++ [last])).length) : LongestFit room ops kept where
  isPrefix := by
    obtain rfl | hprefix := List.prefix_concat_iff.1 h.isPrefix
    · have hfits := h.fits
      omega
    · exact hprefix
  fits := h.fits
  longest := fun more hmore => h.longest more (hmore.trans (List.prefix_append ops [last]))

end LongestFit

/-- The loop ends with the attempt to write the longest fit. -/
theorem trimWithin_of_longestFit (h : LongestFit buffer.length ops kept) (attempts : Nat) :
    trimWithin attempts ops buffer =
      if ops.length - kept.length < attempts then some (writeTrimmed buffer ops.reverse)
      else none := by
  induction ops using List.reverseRecOn generalizing buffer attempts with
  | nil =>
    obtain rfl : kept = [] := List.prefix_nil.1 h.isPrefix
    cases attempts with
    | zero => rfl
    | succ attempts =>
      unfold trimWithin
      rw [writeInto_of_le h.fits]
      simp [writeTrimmed, writeInto_of_le h.fits]
  | append_singleton before last ih =>
    cases attempts with
    | zero => rfl
    | succ attempts =>
      unfold trimWithin
      rw [List.reverse_append, List.reverse_singleton, List.singleton_append, writeTrimmed,
        List.reverse_cons, List.reverse_reverse]
      rcases Nat.lt_or_ge buffer.length (encode (before ++ [last])).length with hlt | hle
      · -- The attempt fails. The next one finds a buffer of the same length.
        obtain ⟨after, hafter, hlength⟩ := writeInto_of_lt hlt
        have hbefore := h.of_concat hlt
        have hcount := hbefore.isPrefix.length_le
        rw [hafter]
        rw [← hlength] at hbefore
        simp only [List.isEmpty_iff, List.append_eq_nil_iff, List.cons_ne_self, and_false, if_false,
          List.dropLast_concat, ih hbefore, List.length_append, List.length_singleton]
        congr 1
        apply propext
        omega
      · obtain rfl := h.eq_of_fits hle
        rw [writeInto_of_le hle]
        simp

/-! ## A buffer without room for the empty list -/

/-- The count of a list is written first, and it takes eight bytes. -/
theorem writeInto_of_lt_eight (h : buffer.length < 8) (ops : List Op) :
    writeInto ops buffer = (none, buffer) := by
  unfold writeInto Wire.chunks Wire.writeChunks
  rw [if_neg (by rw [Wire.length_littleEndian]; omega)]

theorem writeTrimmed_of_lt_eight (h : buffer.length < 8) (backwards : List Op) :
    writeTrimmed buffer backwards = (none, buffer) := by
  induction backwards with
  | nil => rw [writeTrimmed, writeInto_of_lt_eight h]
  | cons last before ih =>
    rw [writeTrimmed, writeInto_of_lt_eight h]
    exact ih

theorem trimWithin_of_lt_eight (h : buffer.length < 8) (ops : List Op) (attempts : Nat) :
    trimWithin attempts ops buffer = if ops.length < attempts then some (none, buffer) else none := by
  induction ops using List.reverseRecOn generalizing attempts with
  | nil =>
    cases attempts with
    | zero => rfl
    | succ attempts => simp [trimWithin, writeInto_of_lt_eight h]
  | append_singleton before last ih =>
    cases attempts with
    | zero => rfl
    | succ attempts =>
      unfold trimWithin
      rw [writeInto_of_lt_eight h]
      simp [ih]

/-! ## The loop as a whole -/

theorem length_encode_nil : (encode []).length = 8 := rfl

/-- The longest fit is written where there is room for the empty list. -/
theorem exists_writeTrimmed (h : 8 ≤ buffer.length) (ops : List Op) :
    ∃ kept rest, LongestFit buffer.length ops kept ∧
      writeTrimmed buffer ops.reverse = (some (encode kept).length, encode kept ++ rest) ∧
      (encode kept ++ rest).length = buffer.length := by
  have hcases := writeTrimmed_cases ops.reverse buffer
  rw [List.reverse_reverse] at hcases
  obtain hkept | ⟨hlt, -⟩ := hcases
  · exact hkept
  · rw [length_encode_nil] at hlt
    omega

/-- **For every list and every buffer, the loop ends. With eight bytes or more it keeps the longest
beginning of the list whose written form fits, after one failed attempt for each operation left out, and
the buffer begins with this written form, whatever the failed attempts had written. With less, every
attempt fails, the buffer is what it was, and the mutation of bytes takes over. The mutation of a test
case trims the mutated list in this way.** -/
theorem trims_to_the_longest_fit (buffer : List UInt8) (ops : List Op) :
    (8 ≤ buffer.length → ∃ kept rest, LongestFit buffer.length ops kept ∧
      (∀ attempts, trimWithin attempts ops buffer =
        if ops.length - kept.length < attempts then
          some (some (encode kept).length, encode kept ++ rest) else none) ∧
      writeTrimmed buffer ops.reverse = (some (encode kept).length, encode kept ++ rest) ∧
      (encode kept ++ rest).length = buffer.length) ∧
    (buffer.length < 8 →
      (∀ attempts, trimWithin attempts ops buffer =
        if ops.length < attempts then some (none, buffer) else none) ∧
      writeTrimmed buffer ops.reverse = (none, buffer)) ∧
    ∀ (size maxSize : Nat) (seed : UInt32), oneBits seed % 8 ≠ 0 →
      (8 ≤ buffer.length → ∃ kept rest,
        LongestFit buffer.length (mutated buffer size maxSize seed) kept ∧
        mutateBuffer buffer size maxSize seed =
          .done (min (encode kept).length maxSize) (encode kept ++ rest)) ∧
      (buffer.length < 8 → mutateBuffer buffer size maxSize seed = .fallback) := by
  refine ⟨fun hroom => ?_, fun hlt => ?_, fun size maxSize seed hseed => ⟨fun hroom => ?_, fun hlt => ?_⟩⟩
  · obtain ⟨kept, rest, hfit, hrun, hlength⟩ := exists_writeTrimmed hroom ops
    refine ⟨kept, rest, hfit, fun attempts => ?_, hrun, hlength⟩
    rw [trimWithin_of_longestFit hfit, hrun]
  · exact ⟨trimWithin_of_lt_eight hlt ops, writeTrimmed_of_lt_eight hlt ops.reverse⟩
  · obtain ⟨kept, rest, hfit, hrun, -⟩ :=
      exists_writeTrimmed hroom (mutated buffer size maxSize seed)
    exact ⟨kept, rest, hfit, by rw [mutateBuffer_eq hseed, hrun]⟩
  · rw [mutateBuffer_eq hseed, writeTrimmed_of_lt_eight hlt]

/-- Behind the list that is kept there stands what the failed attempt left: the variant of the operation
that was left out, whose number did not fit any more. -/
example : writeTrimmed (.replicate 20 9) [.newHandle 2, .newSnapshot 1] =
    (some 16, encode [.newSnapshot 1] ++ [8, 0, 0, 0]) := by decide

end RopeStore.Trial.TestCase
