import Mathlib.Data.List.Basic
import Mathlib.Order.Bounds.Defs
import RopeStore.SizeClass

/-!
# Size classes of allocations

* `roundUp_eq_ok` : up to the largest allocation, rounding up does not fault; `rounded_cases` : what comes
  out, band by band, for linear arithmetic;
* `tagFor_eq_ok`, `sizeFor_tagForUnchecked_rounded` : on the allocation range the tag of a size is a
  buffer tag, and it stands for the size rounded up; `roundUp_bind_tagFor_eq_ok` puts both together;
* `sizeFor_le_sizeFor_iff`, `rounded_le_sizeFor_iff` : tags are ordered as their sizes, and no size
  class lies between a size and the size rounded up; so `tagForUnchecked_rounded_le_iff` says which
  tags are large enough;
* `roomFor`, `leastFor` : the tags with room for a payload, and the least of them.
-/

namespace RopeStore.SizeClass

/-- The constants of the three bands, for linear arithmetic. -/
theorem bands : smallEnd = 512 ∧ mediumEnd = 8192 ∧ smallTags = 64 ∧ mediumTags = 120 ∧
    minSize = 32 ∧ maxSize = 4096 ∧ maxLargeSize = 262144 ∧ headerSize = 16 := by
  decide

theorem granularity_cases (size : Nat) :
    size ≤ 512 ∧ granularity size = 8 ∨ 512 < size ∧ size ≤ 8192 ∧ granularity size = 64 ∨
      8192 < size ∧ granularity size = 4096 := by
  obtain ⟨hs, hm, -⟩ := bands
  unfold granularity
  rw [hs, hm]
  split
  · exact Or.inl ⟨‹_›, rfl⟩
  · split
    · exact Or.inr (Or.inl ⟨by omega, ‹_›, rfl⟩)
    · exact Or.inr (Or.inr ⟨by omega, rfl⟩)

/-- The least multiple of the band's step that is not below `size`. -/
def rounded (size : Nat) : Nat :=
  (size + granularity size - 1) / granularity size * granularity size

theorem roundUp_eq_ok {size : Nat} (h : size ≤ maxLargeSize) :
    roundUp size = .ok (rounded size) := by
  obtain ⟨-, -, -, -, -, -, hmax, -⟩ := bands
  have hsum : size + granularity size < wordBound := by
    rw [wordBound_eq]
    rcases granularity_cases size with ⟨_, h⟩ | ⟨_, _, h⟩ | ⟨_, h⟩ <;> omega
  rw [roundUp, checkedAdd, if_pos hsum]
  rfl

/-- The size rounded up, band by band. -/
theorem rounded_cases (size : Nat) :
    size ≤ 512 ∧ rounded size = (size + 7) / 8 * 8 ∨
      512 < size ∧ size ≤ 8192 ∧ rounded size = (size + 63) / 64 * 64 ∨
      8192 < size ∧ rounded size = (size + 4095) / 4096 * 4096 := by
  rcases granularity_cases size with ⟨hle, h⟩ | ⟨hlt, hle, h⟩ | ⟨hlt, h⟩ <;> rw [rounded, h]
  · exact Or.inl ⟨hle, rfl⟩
  · exact Or.inr (Or.inl ⟨hlt, hle, rfl⟩)
  · exact Or.inr (Or.inr ⟨hlt, rfl⟩)

theorem le_rounded (size : Nat) : size ≤ rounded size := by
  rcases rounded_cases size with h | h | h <;> omega

theorem rounded_le_maxLargeSize {size : Nat} (h : size ≤ maxLargeSize) :
    rounded size ≤ maxLargeSize := by
  obtain ⟨-, -, -, -, -, -, hmax, -⟩ := bands
  rcases rounded_cases size with h | h | h <;> omega

/-- The position of a size among all tags, band by band. -/
theorem tagIndex_cases (size : Nat) :
    size ≤ 512 ∧ tagIndex size = size / 8 ∨
      512 < size ∧ size ≤ 8192 ∧ tagIndex size = 56 + size / 64 ∨
      8192 < size ∧ tagIndex size = 182 + size / 4096 := by
  obtain ⟨hs, hm, hst, hmt, -⟩ := bands
  unfold tagIndex
  rw [hs, hm, hst, hmt]
  split
  · exact Or.inl ⟨‹_›, rfl⟩
  · split
    · exact Or.inr (Or.inl ⟨by omega, ‹_›, by omega⟩)
    · exact Or.inr (Or.inr ⟨by omega, by omega⟩)

theorem tagIndex_bounds {size : Nat} (hlo : minSize ≤ size) (hhi : size ≤ maxLargeSize) :
    4 ≤ tagIndex size ∧ tagIndex size ≤ 246 := by
  obtain ⟨-, -, -, -, hmin, -, hmax, -⟩ := bands
  rcases tagIndex_cases size with ⟨_, h⟩ | ⟨_, _, h⟩ | ⟨_, h⟩ <;> rw [h] <;> omega

theorem toNat_tagForUnchecked {size : Nat} (hhi : tagIndex size ≤ 246) :
    (tagForUnchecked size).toNat = tagIndex size := by
  rw [tagForUnchecked, Nat.toUInt8, UInt8.toNat_ofNat']
  omega

theorem isBuffer_iff (tag : UInt8) : isBuffer tag = true ↔ 4 ≤ tag.toNat ∧ tag.toNat ≤ 246 := by
  rw [isBuffer, Bool.and_eq_true, decide_eq_true_iff, decide_eq_true_iff, UInt8.le_iff_toNat_le,
    UInt8.le_iff_toNat_le]
  rfl

theorem tagFor_eq_ok {size : Nat} (hlo : minSize ≤ size) (hhi : size ≤ maxLargeSize) :
    tagFor size = .ok (tagForUnchecked size) ∧ isBuffer (tagForUnchecked size) = true := by
  obtain ⟨h4, h246⟩ := tagIndex_bounds hlo hhi
  have hbuf : isBuffer (tagForUnchecked size) = true := by
    rw [isBuffer_iff, toNat_tagForUnchecked h246]
    exact ⟨h4, h246⟩
  rw [tagFor, if_pos ⟨hlo, hhi⟩]
  simp only [require, hbuf, if_true]
  exact ⟨rfl, trivial⟩

/-- The size that a tag stands for, band by band. -/
theorem sizeFor_cases (tag : UInt8) :
    tag.toNat ≤ 64 ∧ sizeFor tag = tag.toNat * 8 ∨
      64 < tag.toNat ∧ tag.toNat ≤ 184 ∧ sizeFor tag = 512 + (tag.toNat - 64) * 64 ∨
      184 < tag.toNat ∧ sizeFor tag = 8192 + (tag.toNat - 184) * 4096 := by
  obtain ⟨hs, hm, hst, hmt, -⟩ := bands
  unfold sizeFor
  simp only [hs, hm, hst, hmt]
  split
  · exact Or.inl ⟨‹_›, rfl⟩
  · split
    · exact Or.inr (Or.inl ⟨by omega, ‹_›, rfl⟩)
    · exact Or.inr (Or.inr ⟨by omega, by omega⟩)

theorem sizeFor_tagForUnchecked_rounded {size : Nat} (hlo : minSize ≤ size)
    (hhi : size ≤ maxLargeSize) : sizeFor (tagForUnchecked (rounded size)) = rounded size := by
  have hlo' : minSize ≤ rounded size := Nat.le_trans hlo (le_rounded size)
  have hhi' := rounded_le_maxLargeSize hhi
  have htag := toNat_tagForUnchecked (tagIndex_bounds hlo' hhi').2
  have hsize := sizeFor_cases (tagForUnchecked (rounded size))
  rw [htag] at hsize
  have hidx := tagIndex_cases (rounded size)
  rcases rounded_cases size with h | h | h <;> omega

/-- An allocation of a legal size is made in the class of the size rounded up. -/
theorem roundUp_bind_tagFor_eq_ok {size : Nat} (hlo : minSize ≤ size) (hhi : size ≤ maxLargeSize) :
    roundUp size >>= tagFor = .ok (tagForUnchecked (rounded size)) ∧
      isBuffer (tagForUnchecked (rounded size)) = true := by
  have hlo' : minSize ≤ rounded size := Nat.le_trans hlo (le_rounded size)
  obtain ⟨htag, hbuf⟩ := tagFor_eq_ok hlo' (rounded_le_maxLargeSize hhi)
  rw [roundUp_eq_ok hhi]
  exact ⟨htag, hbuf⟩

theorem headerSize_le_sizeFor {tag : UInt8} (h : isBuffer tag = true) :
    headerSize ≤ sizeFor tag := by
  obtain ⟨-, -, -, -, -, -, -, hhead⟩ := bands
  rw [isBuffer_iff] at h
  rw [hhead]
  rcases sizeFor_cases tag with h' | h' | h' <;> omega

theorem capacityFor_eq_ok {tag : UInt8} (h : isBuffer tag = true) :
    capacityFor tag = .ok (sizeFor tag - headerSize) := by
  rw [capacityFor, checkedSub, if_pos (headerSize_le_sizeFor h)]

theorem sizeFor_lt_wordBound (tag : UInt8) : sizeFor tag < wordBound := by
  have := tag.toNat_lt
  rw [wordBound_eq]
  rcases sizeFor_cases tag with h | h | h <;> omega

theorem sizeFor_le_maxLargeSize {tag : UInt8} (htag : isBuffer tag = true) :
    sizeFor tag ≤ maxLargeSize := by
  obtain ⟨-, hlast⟩ := (isBuffer_iff tag).1 htag
  have hmax : maxLargeSize = 262144 := rfl
  rcases sizeFor_cases tag with h | h | h <;> omega

/-! ## The order of the classes -/

/-- Tags are ordered as the sizes that they stand for. -/
theorem sizeFor_le_sizeFor_iff {tag other : UInt8} (htag : isBuffer tag = true)
    (hother : isBuffer other = true) : sizeFor tag ≤ sizeFor other ↔ tag ≤ other := by
  rw [isBuffer_iff] at htag hother
  rw [UInt8.le_iff_toNat_le]
  rcases sizeFor_cases tag with h | h | h <;> rcases sizeFor_cases other with h' | h' | h' <;> omega

/-- No size class lies between a size and the size rounded up. -/
theorem rounded_le_sizeFor_iff {size : Nat} {tag : UInt8} (htag : isBuffer tag = true) :
    rounded size ≤ sizeFor tag ↔ size ≤ sizeFor tag := by
  refine ⟨Nat.le_trans (le_rounded size), fun hle => ?_⟩
  rw [isBuffer_iff] at htag
  rcases rounded_cases size with h | h | h <;> rcases sizeFor_cases tag with h' | h' | h' <;> omega

/-- The tag of a size rounded up is the least one whose allocation is large enough. -/
theorem tagForUnchecked_rounded_le_iff {size : Nat} (hlo : minSize ≤ size)
    (hhi : size ≤ maxLargeSize) {tag : UInt8} (htag : isBuffer tag = true) :
    tagForUnchecked (rounded size) ≤ tag ↔ size ≤ sizeFor tag := by
  obtain ⟨-, hbuf⟩ := roundUp_bind_tagFor_eq_ok hlo hhi
  rw [← sizeFor_le_sizeFor_iff hbuf htag, sizeFor_tagForUnchecked_rounded hlo hhi,
    rounded_le_sizeFor_iff htag]

/-! ## Room for a payload -/

/-- The buffer tags whose payload has room for `length` bytes. -/
def roomFor (length : Nat) : Set UInt8 :=
  {tag | isBuffer tag = true ∧ ∃ capacity, capacityFor tag = .ok capacity ∧ length ≤ capacity}

/-- The tag of the smallest buffer with room for `length` bytes. -/
def leastFor (length : Nat) : UInt8 := tagForUnchecked (rounded (length + headerSize))

theorem mem_roomFor_iff {tag : UInt8} {length : Nat} :
    tag ∈ roomFor length ↔ isBuffer tag = true ∧ length + headerSize ≤ sizeFor tag := by
  refine and_congr_right fun htag => ?_
  have hhead := headerSize_le_sizeFor htag
  rw [capacityFor_eq_ok htag]
  constructor
  · rintro ⟨capacity, hcapacity, hle⟩
    cases hcapacity
    omega
  · exact fun hle => ⟨_, rfl, by omega⟩

variable {length : Nat}

theorem roundUp_bind_tagFor_eq_leastFor (hlo : minLength ≤ length) (hhi : length ≤ maxLargeLength) :
    roundUp (length + headerSize) >>= tagFor = .ok (leastFor length) ∧
      isBuffer (leastFor length) = true :=
  roundUp_bind_tagFor_eq_ok (Nat.add_le_add_right hlo headerSize)
    (Nat.add_le_add_right hhi headerSize)

theorem isLeast_leastFor (hlo : minLength ≤ length) (hhi : length ≤ maxLargeLength) :
    IsLeast (roomFor length) (leastFor length) := by
  obtain ⟨-, hbuf⟩ := roundUp_bind_tagFor_eq_leastFor hlo hhi
  have hle := @tagForUnchecked_rounded_le_iff (length + headerSize)
    (Nat.add_le_add_right hlo headerSize) (Nat.add_le_add_right hhi headerSize)
  constructor
  · exact mem_roomFor_iff.2 ⟨hbuf, (hle hbuf).1 (UInt8.le_refl _)⟩
  · intro tag htag
    obtain ⟨htag, hroom⟩ := mem_roomFor_iff.1 htag
    exact (hle htag).2 hroom

/-- The smallest buffer is no larger than any other with room for the payload. -/
theorem sizeFor_leastFor_le (hlo : minLength ≤ length) {tag : UInt8}
    (htag : tag ∈ roomFor length) : sizeFor (leastFor length) ≤ sizeFor tag := by
  have hmin : minLength + headerSize = minSize := rfl
  obtain ⟨hbuf, hroom⟩ := mem_roomFor_iff.1 htag
  have hmax := sizeFor_le_maxLargeSize hbuf
  rw [leastFor, sizeFor_tagForUnchecked_rounded (by omega) (by omega)]
  exact (rounded_le_sizeFor_iff hbuf).2 hroom

end RopeStore.SizeClass
