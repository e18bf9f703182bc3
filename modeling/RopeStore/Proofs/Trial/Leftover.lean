import Mathlib.Data.List.Basic
import RopeStore.Proofs.Trial.Trim

/-!
# What lies behind a test case

A test case lies at the front of a buffer that may be longer, and what is behind it belongs to no test
case. The mutation reads its list from the whole buffer. So what is behind shows where the test case ends
before the list that it announces is complete, and nowhere else.

* `Mutated.output` : the new test case, without what is behind it in the buffer;
* `Wire.decode_append` : bytes that are read, or refused for their variant, are so whatever follows;
* `decodeOrEmpty_append_of_not_endsEarly`, `decodeOrEmpty_append_ne_iff` : when more bytes change the list;
* `exists_output` : the output, told by the mutated list and the length of the buffer alone;
  `output_congr` : two buffers of one length that begin with the same list have the same output;
* `leftover_shows_only_if_cut_short` : so have two buffers that begin with the same test case, unless it
  ends early and they are longer than it is;
* `leftover_is_mutated` : in that case what is behind is taken for operations.
-/

namespace RopeStore.Trial

/-! ## Reading with more behind -/

namespace Wire
variable {input : List UInt8} {ops : List Op} {rest : List UInt8}

theorem decode_append (h : decode input = .ok (ops, rest)) (more : List UInt8) :
    decode (input ++ more) = .ok (ops, rest ++ more) := by
  obtain ⟨hword, rfl⟩ := decode_eq_ok h
  rw [List.append_assoc, decode_encode hword]

theorem decode_append_of_unexpectedVariant (h : decode input = .error .unexpectedVariant)
    (more : List UInt8) : decode (input ++ more) = .error .unexpectedVariant := by
  rw [decode_eq_unexpectedVariant_iff] at h ⊢
  exact h.append more

end Wire

namespace TestCase
open Wire (encode decode EndsEarly)

def Mutated.output : Mutated → Option (Nat × List UInt8)
  | .fallback => none
  | .done size buffer => some (size, buffer.take size)

variable {input more buffer buffer' : List UInt8} {ops kept : List Op} {size maxSize : Nat}
  {seed : UInt32}

theorem decodeOrEmpty_of_eq_ok {rest : List UInt8} (h : decode input = .ok (ops, rest)) :
    decodeOrEmpty input = ops := by
  rw [decodeOrEmpty, h]

theorem decodeOrEmpty_of_eq_error {e : Wire.DecodeError} (h : decode input = .error e) :
    decodeOrEmpty input = [] := by
  rw [decodeOrEmpty, h]

/-- A list that is complete, or that is none, is so whatever follows. -/
theorem decodeOrEmpty_append_of_not_endsEarly (h : ¬ EndsEarly input) (more : List UInt8) :
    decodeOrEmpty (input ++ more) = decodeOrEmpty input := by
  cases hrun : decode input with
  | ok found =>
    obtain ⟨ops, rest⟩ := found
    rw [decodeOrEmpty_of_eq_ok hrun, decodeOrEmpty_of_eq_ok (Wire.decode_append hrun more)]
  | error e =>
    cases e with
    | unexpectedEnd => exact absurd (Wire.decode_eq_unexpectedEnd_iff.1 hrun) h
    | unexpectedVariant =>
      rw [decodeOrEmpty_of_eq_error hrun,
        decodeOrEmpty_of_eq_error (Wire.decode_append_of_unexpectedVariant hrun more)]

/-- More bytes make another list exactly where the first ones end early and a list is read from all. -/
theorem decodeOrEmpty_append_ne_iff :
    decodeOrEmpty (input ++ more) ≠ decodeOrEmpty input ↔
      EndsEarly input ∧ decodeOrEmpty (input ++ more) ≠ [] := by
  by_cases h : EndsEarly input
  · rw [decodeOrEmpty_of_eq_error (Wire.decode_eq_unexpectedEnd_iff.2 h)]
    exact ⟨fun hne => ⟨h, hne⟩, fun hne => hne.2⟩
  · exact iff_of_false (fun hne => hne (decodeOrEmpty_append_of_not_endsEarly h more)) fun hne => h hne.1

/-! ## What the output depends on -/

/-- The output is the written form of the longest fit, cut to what a test case may have. -/
theorem exists_output (hseed : oneBits seed % 8 ≠ 0) (hroom : 8 ≤ buffer.length) :
    ∃ kept, LongestFit buffer.length (mutated buffer size maxSize seed) kept ∧
      (mutateBuffer buffer size maxSize seed).output =
        some (min (encode kept).length maxSize, (encode kept).take maxSize) := by
  obtain ⟨kept, rest, hfit, hrun, -⟩ := exists_writeTrimmed hroom (mutated buffer size maxSize seed)
  refine ⟨kept, hfit, ?_⟩
  rw [mutateBuffer_eq hseed, hrun, Mutated.output,
    List.take_append_of_le_length (Nat.min_le_left ..), Nat.min_comm, ← List.take_eq_take_min]

theorem output_of_fallback_seed (hseed : oneBits seed % 8 = 0) :
    (mutateBuffer buffer size maxSize seed).output = none := by
  rw [mutateBuffer, if_pos hseed]
  rfl

theorem output_of_lt_eight (hseed : oneBits seed % 8 ≠ 0) (hlt : buffer.length < 8) :
    (mutateBuffer buffer size maxSize seed).output = none := by
  rw [mutateBuffer_eq hseed, writeTrimmed_of_lt_eight hlt]
  rfl

/-- Nothing of a buffer but its length and the list that it begins with shows in the output. What failed
attempts leave in it does not show either. -/
theorem output_congr (hlength : buffer.length = buffer'.length)
    (hlist : decodeOrEmpty buffer = decodeOrEmpty buffer') (size maxSize : Nat) (seed : UInt32) :
    (mutateBuffer buffer size maxSize seed).output =
      (mutateBuffer buffer' size maxSize seed).output := by
  by_cases hseed : oneBits seed % 8 = 0
  · rw [output_of_fallback_seed hseed, output_of_fallback_seed hseed]
  rcases Nat.lt_or_ge buffer.length 8 with hlt | hroom
  · rw [output_of_lt_eight hseed hlt, output_of_lt_eight hseed (hlength ▸ hlt)]
  · obtain ⟨kept, hfit, hout⟩ := exists_output hseed hroom
    obtain ⟨kept', hfit', hout'⟩ := exists_output hseed (hlength ▸ hroom)
    have hmutated : mutated buffer size maxSize seed = mutated buffer' size maxSize seed := by
      rw [mutated, hlist, mutated]
    rw [← hlength, ← hmutated] at hfit'
    rw [hout, hout', hfit.unique hfit']

/-- **A mutation shows what lies behind a test case only if the test case ends before its list is complete.
The list that is mutated differs from the one that the test case holds exactly where the test case ends
early and a list is read from the whole buffer. Beside this list and the length of the buffer nothing of
the buffer shows. So two buffers that begin with the same test case have the same output if the test case
does not end early or nothing is behind it, and it is the test case's own list that was mutated then.** -/
theorem leftover_shows_only_if_cut_short (hbuffer : buffer.length = max size maxSize)
    (hbuffer' : buffer'.length = max size maxSize) (hinput : buffer.take size = buffer'.take size)
    (seed : UInt32) :
    (decodeOrEmpty buffer ≠ decodeOrEmpty (buffer.take size) ↔
      EndsEarly (buffer.take size) ∧ decodeOrEmpty buffer ≠ []) ∧
    (decodeOrEmpty buffer = decodeOrEmpty buffer' →
      (mutateBuffer buffer size maxSize seed).output =
        (mutateBuffer buffer' size maxSize seed).output) ∧
    (maxSize ≤ size ∨ ¬ EndsEarly (buffer.take size) →
      mutated buffer size maxSize seed =
        ((mutate (decide (maxSize < size)) (decodeOrEmpty (buffer.take size))).run
          (.ofSeed seed.toUInt64)).1 ∧
      (mutateBuffer buffer size maxSize seed).output =
        (mutateBuffer buffer' size maxSize seed).output) := by
  have hlength : buffer.length = buffer'.length := hbuffer.trans hbuffer'.symm
  refine ⟨?_, fun hlist => output_congr hlength hlist size maxSize seed, fun hcase => ?_⟩
  · have hiff := @decodeOrEmpty_append_ne_iff (buffer.take size) (buffer.drop size)
    rwa [List.take_append_drop] at hiff
  · have hown : decodeOrEmpty buffer = decodeOrEmpty (buffer.take size) ∧
        decodeOrEmpty buffer' = decodeOrEmpty (buffer.take size) := by
      obtain hle | hearly := hcase
      · -- Nothing is behind the test case.
        have hall : buffer.take size = buffer := List.take_of_length_le (by omega)
        have hall' : buffer'.take size = buffer' := List.take_of_length_le (by omega)
        rw [hall, ← hall', ← hinput, hall]
        exact ⟨rfl, rfl⟩
      · have happend := decodeOrEmpty_append_of_not_endsEarly hearly
        have hfirst := happend (buffer.drop size)
        have hsecond := happend (buffer'.drop size)
        rw [List.take_append_drop] at hfirst
        rw [hinput, List.take_append_drop, ← hinput] at hsecond
        exact ⟨hfirst, hsecond⟩
    refine ⟨?_, output_congr hlength (hown.1.trans hown.2.symm) size maxSize seed⟩
    rw [mutated, hown.1]

/-- A complete test case, with four bytes behind it. -/
def completeWith (behind : UInt8) : List UInt8 := encode [.newHandle 2] ++ .replicate 4 behind

theorem leftover_shows_only_if_cut_short_complete :
    (completeWith 0).length = max 16 20 ∧ (completeWith 255).length = max 16 20 ∧
    (completeWith 0).take 16 = (completeWith 255).take 16 ∧ ¬ EndsEarly ((completeWith 0).take 16) ∧
    mutated (completeWith 0) 16 20 1 =
      ((mutate false [.newHandle 2]).run (.ofSeed (1 : UInt32).toUInt64)).1 ∧
    (mutateBuffer (completeWith 0) 16 20 1).output =
      (mutateBuffer (completeWith 255) 16 20 1).output := by
  have hrun : decode ((completeWith 0).take 16) = .ok ([.newHandle 2], []) := by decide +kernel
  have hcomplete : ¬ EndsEarly ((completeWith 0).take 16) := by
    rw [← Wire.decode_eq_unexpectedEnd_iff, hrun]
    nofun
  have hlength : (completeWith 0).length = max 16 20 := by decide
  have hlength' : (completeWith 255).length = max 16 20 := by decide
  have hinput : (completeWith 0).take 16 = (completeWith 255).take 16 := by decide
  obtain ⟨-, -, hsame⟩ := leftover_shows_only_if_cut_short hlength hlength' hinput 1
  obtain ⟨hmutated, hout⟩ := hsame (.inr hcomplete)
  rw [decodeOrEmpty_of_eq_ok hrun] at hmutated
  exact ⟨hlength, hlength', hinput, hcomplete, hmutated, hout⟩

/-- A test case that ends before the number of its only operation, with eight bytes behind it. -/
def cutWith (behind : UInt8) : List UInt8 :=
  (encode [.newSnapshot 0]).take 12 ++ behind :: .replicate 7 0

/-- The test case holds no list, and the mutation of no list is no list here. But what is behind it
completes the operation, and shows. -/
theorem leftover_is_mutated :
    (cutWith 0).length = max 12 20 ∧ (cutWith 5).length = max 12 20 ∧
    (cutWith 0).take 12 = (cutWith 5).take 12 ∧
    decode ((cutWith 0).take 12) = .error .unexpectedEnd ∧
    ((mutate false []).run (.ofSeed (4 : UInt32).toUInt64)).1 = [] ∧
    (mutateBuffer (cutWith 0) 12 20 4).output = some (16, encode [.newSnapshot 0]) ∧
    (mutateBuffer (cutWith 5) 12 20 4).output = some (16, encode [.newSnapshot 5]) := by
  decide +kernel

end TestCase
end RopeStore.Trial
