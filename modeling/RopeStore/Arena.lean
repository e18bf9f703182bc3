/-!
# Arenas

An arena keeps values at numbers. The numbers are given out in order and never twice, so the number
of a value that is gone finds nothing for ever.

* `get?` : the view of an arena, through which everything else reads it;
* `push`, `set`, `erase` : a value at the next number, another value at a number, and the end of a
  value. Each of them changes what `get?` finds at one number only.
-/

namespace RopeStore

/-- Values at numbers that are never given out twice. -/
structure Arena (α : Type) where
  /-- The values that are there, and `none` for those that are gone. -/
  slots : Array (Option α)

namespace Arena
variable {α : Type}

def empty : Arena α := ⟨#[]⟩

/-- How many numbers were given out. -/
def size (a : Arena α) : Nat := a.slots.size

def get? (a : Arena α) (i : Nat) : Option α := a.slots[i]?.join

def push (a : Arena α) (x : α) : Arena α := ⟨a.slots.push (some x)⟩

/-- The arena with `x` at number `i`, if that was given out. -/
def set (a : Arena α) (i : Nat) (x : α) : Arena α := ⟨a.slots.setIfInBounds i (some x)⟩

def erase (a : Arena α) (i : Nat) : Arena α := ⟨a.slots.setIfInBounds i none⟩

/-! ## Numbers -/

@[simp] theorem size_empty : (empty : Arena α).size = 0 := rfl

@[simp] theorem size_push (a : Arena α) (x : α) : (a.push x).size = a.size + 1 := by
  simp [size, push]

@[simp] theorem size_set (a : Arena α) (i : Nat) (x : α) : (a.set i x).size = a.size := by
  simp [size, set]

@[simp] theorem size_erase (a : Arena α) (i : Nat) : (a.erase i).size = a.size := by
  simp [size, erase]

/-! ## What is found -/

@[simp] theorem get?_empty (i : Nat) : (empty : Arena α).get? i = none := rfl

theorem get?_eq_none_of_size_le {a : Arena α} {i : Nat} (h : a.size ≤ i) : a.get? i = none := by
  rw [get?, Array.getElem?_eq_none h]
  rfl

theorem lt_size_of_get?_eq_some {a : Arena α} {i : Nat} {x : α} (h : a.get? i = some x) :
    i < a.size := by
  refine Nat.lt_of_not_le fun le => ?_
  rw [get?_eq_none_of_size_le le] at h
  cases h

@[simp] theorem get?_push_size (a : Arena α) (x : α) : (a.push x).get? a.size = some x := by
  simp [get?, push, size]

theorem get?_push_of_ne {a : Arena α} {i : Nat} (x : α) (h : i ≠ a.size) :
    (a.push x).get? i = a.get? i := by
  have h : i ≠ a.slots.size := h
  simp [get?, push, Array.getElem?_push, h]

theorem get?_set_self {a : Arena α} {i : Nat} (x : α) (h : i < a.size) :
    (a.set i x).get? i = some x := by
  have h : i < a.slots.size := h
  rw [get?, set, Array.getElem?_setIfInBounds_self, if_pos h]
  rfl

theorem get?_set_of_ne {i j : Nat} (a : Arena α) (x : α) (h : i ≠ j) :
    (a.set i x).get? j = a.get? j := by
  rw [get?, set, Array.getElem?_setIfInBounds_ne h]
  rfl

@[simp] theorem get?_erase_self (a : Arena α) (i : Nat) : (a.erase i).get? i = none := by
  rw [get?, erase, Array.getElem?_setIfInBounds_self]
  split <;> rfl

theorem get?_erase_of_ne {i j : Nat} (a : Arena α) (h : i ≠ j) :
    (a.erase i).get? j = a.get? j := by
  rw [get?, erase, Array.getElem?_setIfInBounds_ne h]
  rfl

end Arena
end RopeStore
