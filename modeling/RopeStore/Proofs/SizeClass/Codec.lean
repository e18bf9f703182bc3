import Mathlib.Data.List.Basic
import Mathlib.Order.Bounds.Defs
import RopeStore.Proofs.SizeClass

/-!
# Rounding up, and the codec as a pair of adjoints

The three bands have steps of their own. Where one band ends the next one begins on the grid of both, so
what is rounded up lies on the grid also where it leaves its band, and the tags of the bands follow one
another.

* `gridAbove size` : the multiples of the step of `size` that are not below it; `isLeast_rounded`;
* `wordBound_le_add_granularity_iff`, `roundUp_cases` : rounding up faults where the step cannot be added
  any more, which is 4096 below the largest word and from there on;
* `rounded_mono`, `rounded_rounded` : rounding up keeps the order, and what is rounded stays;
* `sizeFor_le_iff` : the tag of a size is the greatest one that is not larger; with
  `tagForUnchecked_rounded_le_iff`, the tag of the size rounded up is the least one that is large enough;
* `rounding_and_tags_adjoint` : all of this for `roundUp` and `tagFor`.
-/

namespace RopeStore.SizeClass
variable {size other : Nat} {tag : UInt8}

/-! ## Rounding up -/

/-- The multiples of the step of `size` that are not below it. -/
def gridAbove (size : Nat) : Set Nat := {m | granularity size ∣ m ∧ size ≤ m}

theorem isLeast_rounded (size : Nat) : IsLeast (gridAbove size) (rounded size) := by
  refine ⟨⟨Nat.dvd_mul_left _ _, le_rounded size⟩, ?_⟩
  rintro m ⟨⟨k, rfl⟩, hle⟩
  rcases granularity_cases size with ⟨_, h⟩ | ⟨_, _, h⟩ | ⟨_, h⟩ <;> rw [h] at hle <;>
    rw [rounded, h] <;> omega

/-- The steps of the two lower bands are no concern here: no size of these is close to the largest
word. -/
theorem wordBound_le_add_granularity_iff (size : Nat) :
    wordBound ≤ size + granularity size ↔ wordBound - 4096 ≤ size := by
  rw [wordBound_eq]
  rcases granularity_cases size with ⟨_, h⟩ | ⟨_, _, h⟩ | ⟨_, h⟩ <;> omega

theorem roundUp_cases (size : Nat) :
    size < wordBound - 4096 ∧ roundUp size = .ok (rounded size) ∨
      wordBound - 4096 ≤ size ∧ roundUp size = .error .addOverflow := by
  have hiff := wordBound_le_add_granularity_iff size
  rw [roundUp, checkedAdd]
  by_cases hsum : size + granularity size < wordBound
  · rw [if_pos hsum]
    exact Or.inl ⟨by omega, rfl⟩
  · rw [if_neg hsum]
    exact Or.inr ⟨by omega, rfl⟩

theorem roundUp_eq_ok_iff {r : Nat} :
    roundUp size = .ok r ↔ size < wordBound - 4096 ∧ r = rounded size := by
  rcases roundUp_cases size with ⟨hlt, hok⟩ | ⟨hle, herror⟩
  · rw [hok, Except.ok.injEq, eq_comm]
    exact (and_iff_right hlt).symm
  · rw [herror]
    exact iff_of_false (fun h => nomatch h) fun h => Nat.not_lt_of_le hle h.1

theorem rounded_mono (hle : size ≤ other) : rounded size ≤ rounded other := by
  rcases rounded_cases size with h | h | h <;> rcases rounded_cases other with h' | h' | h' <;> omega

/-- What is rounded up lies on the grid of the band that it is in, which may be the next one. -/
theorem rounded_rounded (size : Nat) : rounded (rounded size) = rounded size := by
  rcases rounded_cases size with h | h | h <;>
    rcases rounded_cases (rounded size) with h' | h' | h' <;> omega

/-! ## Tags -/

/-- The tag of a size is the greatest one whose allocation is not larger. -/
theorem sizeFor_le_iff (hlo : minSize ≤ size) (hhi : size ≤ maxLargeSize)
    (htag : isBuffer tag = true) : sizeFor tag ≤ size ↔ tag ≤ tagForUnchecked size := by
  rw [UInt8.le_iff_toNat_le, toNat_tagForUnchecked (tagIndex_bounds hlo hhi).2]
  rw [isBuffer_iff] at htag
  rcases sizeFor_cases tag with h | h | h <;> rcases tagIndex_cases size with h' | h' | h' <;> omega

theorem tagFor_eq_error (hout : size < minSize ∨ maxLargeSize < size) :
    tagFor size = .error (.noSizeClass size) := by
  rw [tagFor, if_neg]
  omega

/-- **Rounding up gives the least multiple of the band's step, and the codec is a pair of adjoints.**
Rounding up faults exactly where the step cannot be added to the size; it keeps the order, and what was
rounded stays as it is. On the allocation range, the tag of a size is adjoint to the size of a tag on one
side, and the tag of the size rounded up on the other. Outside of it there is no tag. -/
theorem rounding_and_tags_adjoint (size : Nat) :
    (roundUp size = .error .addOverflow ↔ wordBound ≤ size + granularity size) ∧
    (wordBound ≤ size + granularity size ↔ wordBound - 4096 ≤ size) ∧
    (size < wordBound - 4096 → ∃ r, roundUp size = .ok r ∧
      IsLeast {m | granularity size ∣ m ∧ size ≤ m} r ∧
      (∀ other r', size ≤ other → roundUp other = .ok r' → r ≤ r') ∧
      (r < wordBound - 4096 → roundUp r = .ok r)) ∧
    (32 ≤ size → size ≤ 256 * 1024 → ∃ down up,
      tagFor size = .ok down ∧ roundUp size >>= tagFor = .ok up ∧
      isBuffer down = true ∧ isBuffer up = true ∧
      ∀ tag, isBuffer tag = true →
        (sizeFor tag ≤ size ↔ tag ≤ down) ∧ (size ≤ sizeFor tag ↔ up ≤ tag)) ∧
    (size < 32 ∨ 256 * 1024 < size → tagFor size = .error (.noSizeClass size)) := by
  refine ⟨?_, wordBound_le_add_granularity_iff size, fun hlt => ?_, fun hlo hhi => ?_,
    tagFor_eq_error⟩
  · rw [wordBound_le_add_granularity_iff]
    rcases roundUp_cases size with ⟨hlt, hok⟩ | ⟨hle, herror⟩
    · rw [hok]
      exact iff_of_false (fun h => nomatch h) (Nat.not_le_of_lt hlt)
    · exact iff_of_true herror hle
  · refine ⟨rounded size, roundUp_eq_ok_iff.2 ⟨hlt, rfl⟩, isLeast_rounded size, ?_, fun hr => ?_⟩
    · intro other r' hle hother
      obtain ⟨-, rfl⟩ := roundUp_eq_ok_iff.1 hother
      exact rounded_mono hle
    · exact roundUp_eq_ok_iff.2 ⟨hr, (rounded_rounded size).symm⟩
  · obtain ⟨hdown, hbuf⟩ := tagFor_eq_ok hlo hhi
    obtain ⟨hup, hbuf'⟩ := roundUp_bind_tagFor_eq_ok hlo hhi
    refine ⟨_, _, hdown, hup, hbuf, hbuf', fun tag htag => ⟨sizeFor_le_iff hlo hhi htag, ?_⟩⟩
    exact (tagForUnchecked_rounded_le_iff hlo hhi htag).symm

/-- The last size that can be rounded up. What comes out cannot be rounded again. -/
example : roundUp 18446744073709547519 = .ok 18446744073709547520 ∧
    roundUp 18446744073709547520 = .error .addOverflow := by decide

end RopeStore.SizeClass
