import Mathlib.Data.List.Basic
import RopeStore.Heap.Store
import RopeStore.Proofs.Count
import RopeStore.Proofs.SizeClass

/-!
# Heaps whose counts are right

* `Arena.count` : how many values of an arena have a property, and how each change of an arena
  changes that number;
* `Heap.put`, `Heap.push`, `Heap.without`, `Heap.tell` : the changes of a heap as functions, with what
  `find?` finds after each of them;
* `Body.Sound` : a body that can be read in a heap; `Heap.viewsOver` : the live views over a node;
* `Counts n k` : the count of the node `n` is right if it has `k` owners; `Few h held` : no node has
  more owners than its count can hold; `Legible h held` : no node has so many that its count reads as
  another one again;
* `Owned h held` : everything that is live in `h` is sound, and its owners are its occurrences in the
  list `held` together with the views over it. `held` lists the references from outside the heap.
-/

namespace RopeStore

/-! ## Counting in an arena -/

namespace Arena
variable {α : Type}

def count (a : Arena α) (p : α → Bool) : Nat := a.slots.countP (Option.any p)

@[simp] theorem count_push (a : Arena α) (x : α) (p : α → Bool) :
    (a.push x).count p = a.count p + if p x = true then 1 else 0 := by
  simp [count, push, Array.countP_push]

theorem set_push_size (a : Arena α) (x y : α) : (a.push x).set a.size y = a.push y := by
  rw [push, push, set, size]
  congr 1
  refine Array.ext_getElem? fun i => ?_
  simp only [Array.getElem?_setIfInBounds, Array.getElem?_push, Array.size_push]
  by_cases hi : a.slots.size = i
  · rw [if_pos hi, if_pos (by omega), if_pos hi.symm]
  · rw [if_neg hi, if_neg (Ne.symm hi), if_neg (Ne.symm hi)]

theorem get?_eq_some_iff {a : Arena α} {i : Nat} {x : α} :
    a.get? i = some x ↔ ∃ h : i < a.slots.size, a.slots[i] = some x := by
  rw [get?, Option.join_eq_some_iff, Array.getElem?_eq_some_iff]

theorem set_set (a : Arena α) (i : Nat) (x y : α) : (a.set i x).set i y = a.set i y := by
  rw [set, set, set, Array.setIfInBounds_setIfInBounds]

theorem set_of_get? {a : Arena α} {i : Nat} {x : α} (h : a.get? i = some x) : a.set i x = a := by
  obtain ⟨hi, hx⟩ := get?_eq_some_iff.1 h
  rw [set, Array.setIfInBounds, dif_pos hi, ← hx, Array.set_getElem_self]

/-- One value less or another value: what the count was, with the new value in the old one's
place. -/
theorem count_set {a : Arena α} {i : Nat} {x : α} (h : a.get? i = some x) (y : α) (p : α → Bool) :
    (a.set i y).count p + (if p x = true then 1 else 0) =
      a.count p + if p y = true then 1 else 0 := by
  obtain ⟨hi, hx⟩ := get?_eq_some_iff.1 h
  have hle : (if Option.any p a.slots[i] = true then 1 else 0) ≤ a.slots.countP (Option.any p) :=
    Array.boole_getElem_le_countP (p := Option.any p) hi
  rw [count, count, set, Array.setIfInBounds, dif_pos hi, Array.countP_set hi]
  rw [hx] at hle ⊢
  simp only [Option.any_some] at hle ⊢
  omega

theorem count_erase {a : Arena α} {i : Nat} {x : α} (h : a.get? i = some x) (p : α → Bool) :
    (a.erase i).count p + (if p x = true then 1 else 0) = a.count p := by
  obtain ⟨hi, hx⟩ := get?_eq_some_iff.1 h
  have hle : (if Option.any p a.slots[i] = true then 1 else 0) ≤ a.slots.countP (Option.any p) :=
    Array.boole_getElem_le_countP (p := Option.any p) hi
  rw [count, count, erase, Array.setIfInBounds, dif_pos hi, Array.countP_set hi]
  rw [hx] at hle ⊢
  simp only [Option.any_some, Option.any_none] at hle ⊢
  simp only [Bool.false_eq_true, if_false]
  omega

theorem count_pos_iff {a : Arena α} {p : α → Bool} :
    0 < a.count p ↔ ∃ i x, a.get? i = some x ∧ p x = true := by
  rw [count, Array.countP_pos_iff]
  constructor
  · rintro ⟨o, ho, hp⟩
    cases o with
    | none => exact absurd hp (by simp)
    | some x =>
      obtain ⟨i, hi, hget⟩ := Array.getElem_of_mem ho
      exact ⟨i, x, get?_eq_some_iff.2 ⟨hi, hget⟩, by simpa using hp⟩
  · rintro ⟨i, x, h, hx⟩
    obtain ⟨hi, hget⟩ := get?_eq_some_iff.1 h
    exact ⟨some x, hget ▸ Array.getElem_mem hi, by simpa using hx⟩

end Arena

/-! ## The changes of a heap -/

/-- The node that a view is over. -/
def Body.child? {ρ : Type} (b : Body ρ) : Option NodeId := b.view?.map (·.2)

namespace Heap
variable {ρ : Type} {h : Heap ρ} {id : NodeId} {m : Node ρ}

def body? (h : Heap ρ) (id : NodeId) : Option (Body ρ) := (h.find? id).map (·.body)

def next (h : Heap ρ) : NodeId := ⟨h.nodes.size⟩

def push (h : Heap ρ) (n : Node ρ) : Heap ρ := { h with nodes := h.nodes.push n }

def put (h : Heap ρ) (id : NodeId) (n : Node ρ) : Heap ρ :=
  { h with nodes := h.nodes.set id.index n }

def without (h : Heap ρ) (id : NodeId) : Heap ρ := { h with nodes := h.nodes.erase id.index }

def tell (h : Heap ρ) (ns : List (Notice ρ)) : Heap ρ := { h with notices := h.notices ++ ns }

theorem index_inj {i j : NodeId} : i.index = j.index ↔ i = j := by
  cases i
  cases j
  simp

theorem lt_size_of_find? (hm : h.find? id = some m) : id.index < h.nodes.size :=
  Arena.lt_size_of_get?_eq_some hm

theorem find?_next (h : Heap ρ) : h.find? h.next = none :=
  Arena.get?_eq_none_of_size_le (Nat.le_refl _)

theorem find?_push (h : Heap ρ) (n : Node ρ) (j : NodeId) :
    (h.push n).find? j = if j = h.next then some n else h.find? j := by
  by_cases hj : j = h.next
  · rw [if_pos hj, hj]
    exact Arena.get?_push_size h.nodes n
  · rw [if_neg hj]
    exact Arena.get?_push_of_ne n fun hi => hj (index_inj.1 hi)

theorem find?_put (hm : h.find? id = some m) (n : Node ρ) (j : NodeId) :
    (h.put id n).find? j = if j = id then some n else h.find? j := by
  by_cases hj : j = id
  · rw [if_pos hj, hj]
    exact Arena.get?_set_self n (lt_size_of_find? hm)
  · rw [if_neg hj]
    exact Arena.get?_set_of_ne h.nodes n fun hi => hj (index_inj.1 hi.symm)

theorem put_put (h : Heap ρ) (id : NodeId) (n m : Node ρ) : (h.put id n).put id m = h.put id m := by
  rw [put, put, put, Arena.set_set]

theorem put_of_find? (hm : h.find? id = some m) : h.put id m = h := by
  rw [put, Arena.set_of_get? hm]

theorem find?_without (h : Heap ρ) (id j : NodeId) :
    (h.without id).find? j = if j = id then none else h.find? j := by
  by_cases hj : j = id
  · rw [if_pos hj, hj]
    exact Arena.get?_erase_self h.nodes id.index
  · rw [if_neg hj]
    exact Arena.get?_erase_of_ne h.nodes fun hi => hj (index_inj.1 hi.symm)

theorem size_push (h : Heap ρ) (n : Node ρ) : (h.push n).nodes.size = h.nodes.size + 1 :=
  Arena.size_push ..

theorem next_put (h : Heap ρ) (id : NodeId) (n : Node ρ) : (h.put id n).next = h.next :=
  congrArg NodeId.mk (Arena.size_set ..)

theorem body?_eq_some_iff {b : Body ρ} :
    h.body? id = some b ↔ ∃ n, h.find? id = some n ∧ n.body = b := by
  rw [body?, Option.map_eq_some_iff]

theorem body?_of_find? (hm : h.find? id = some m) : h.body? id = some m.body :=
  body?_eq_some_iff.2 ⟨m, hm, rfl⟩

theorem lt_size_of_body? {b : Body ρ} (hb : h.body? id = some b) : id.index < h.nodes.size := by
  obtain ⟨m, hm, -⟩ := body?_eq_some_iff.1 hb
  exact lt_size_of_find? hm

theorem body?_push (h : Heap ρ) (n : Node ρ) (j : NodeId) :
    (h.push n).body? j = if j = h.next then some n.body else h.body? j := by
  rw [body?, find?_push]
  split <;> rfl

theorem ne_next_of_body? {b : Body ρ} (hb : h.body? id = some b) : id ≠ h.next := by
  rintro rfl
  exact Nat.lt_irrefl _ (lt_size_of_body? hb)

theorem body?_put (hm : h.find? id = some m) (n : Node ρ) (j : NodeId) :
    (h.put id n).body? j = if j = id then some n.body else h.body? j := by
  rw [body?, find?_put hm]
  split <;> rfl

theorem body?_without (h : Heap ρ) (id j : NodeId) :
    (h.without id).body? j = if j = id then none else h.body? j := by
  rw [body?, find?_without]
  split <;> rfl

theorem body?_put_refs (hm : h.find? id = some m) (refs : RefCount) (j : NodeId) :
    (h.put id { m with refs }).body? j = h.body? j := by
  rw [body?_put hm]
  split
  · subst j
    exact (body?_of_find? hm).symm
  · rfl

/-! ## Views over a node -/

/-- How many live views are over node `id`. -/
def viewsOver (h : Heap ρ) (id : NodeId) : Nat :=
  h.nodes.count fun n => decide (n.body.child? = some id)

theorem viewsOver_pos_iff :
    0 < h.viewsOver id ↔ ∃ j n, h.find? j = some n ∧ n.body.child? = some id := by
  rw [viewsOver, Arena.count_pos_iff]
  constructor
  · rintro ⟨i, n, hn, hc⟩
    exact ⟨⟨i⟩, n, hn, of_decide_eq_true hc⟩
  · rintro ⟨j, n, hn, hc⟩
    exact ⟨j.index, n, hn, decide_eq_true hc⟩

theorem viewsOver_push (h : Heap ρ) (n : Node ρ) (j : NodeId) :
    (h.push n).viewsOver j = h.viewsOver j + if n.body.child? = some j then 1 else 0 := by
  simp [viewsOver, push]

theorem viewsOver_put (hm : h.find? id = some m) {n : Node ρ}
    (hc : n.body.child? = m.body.child?) (j : NodeId) :
    (h.put id n).viewsOver j = h.viewsOver j := by
  have := Arena.count_set hm n fun n => decide (n.body.child? = some j)
  simp only [decide_eq_true_eq, hc] at this
  simp only [viewsOver, put]
  omega

theorem viewsOver_without (hm : h.find? id = some m) (j : NodeId) :
    (h.without id).viewsOver j + (if m.body.child? = some j then 1 else 0) = h.viewsOver j := by
  have := Arena.count_erase hm fun n => decide (n.body.child? = some j)
  simp only [decide_eq_true_eq] at this
  exact this

end Heap

/-! ## Sound bodies and right counts -/

/-- A body that can be read in a heap. A view lies properly inside its child, which is no view. -/
def Body.Sound {ρ : Type} (h : Heap ρ) : Body ρ → Prop
  | .buffer tag bytes => SizeClass.isBuffer tag = true ∧
    bytes.length + SizeClass.headerSize ≤ SizeClass.sizeFor tag
  | .external bytes _ => bytes.length < wordBound
  | .view start length child => 0 < length ∧ ∃ c, h.body? child = some c ∧ c.child? = none ∧
    length < c.length ∧ start + length ≤ c.length
  | .malformed .. => False

/-- A body whose keeper is nobody: that of a node that lives for ever. -/
def Body.IsPermanent {ρ : Type} (b : Body ρ) : Prop := ∃ bytes, b = .external bytes .permanent

/-- The count of `n` is right if the node has `owners` owners. The word of a count that is right
may have wrapped. -/
inductive Counts {ρ : Type} (n : Node ρ) (owners : Nat) : Prop
  | immortal (hrefs : n.refs.isImmortal = true) (hbody : n.body.IsPermanent)
  | mortal (hrefs : n.refs = .ofNat owners) (hpos : 0 < owners) (hbody : ¬ n.body.IsPermanent)

/-- Everything live is sound, and its owners are the references listed in `held` and the views over
it. The shared empty node is there. -/
structure Owned {ρ : Type} (h : Heap ρ) (held : List NodeId) : Prop where
  sound : ∀ {id b}, h.body? id = some b → b.Sound h
  live : ∀ {id}, id ∈ held → ∃ n, h.find? id = some n
  counts : ∀ {id n}, h.find? id = some n → Counts n (held.count id + h.viewsOver id)
  empty : ∃ n, h.find? Heap.emptyId = some n ∧ n.refs.isImmortal = true ∧
    n.body = .external [] .permanent

/-- No node has more owners than a count can hold. -/
def Few {ρ : Type} (h : Heap ρ) (held : List NodeId) : Prop :=
  ∀ id, held.count id + h.viewsOver id < RefCount.bound

/-- No node has more owners than counts have words for. A word that is too high for its count still
tells one owner from more. -/
def Legible {ρ : Type} (h : Heap ρ) (held : List NodeId) : Prop :=
  ∀ id, held.count id + h.viewsOver id ≤ RefCount.period

theorem Few.legible {ρ : Type} {h : Heap ρ} {held : List NodeId} (hf : Few h held) :
    Legible h held :=
  fun id => RefCount.le_period (hf id)

end RopeStore
