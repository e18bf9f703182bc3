import Mathlib.Algebra.BigOperators.Group.Finset.Piecewise
import Mathlib.Algebra.Order.BigOperators.Group.Finset
import RopeStore.Proofs.Heap.Owned
import RopeStore.Proofs.Heap.Stable
import RopeStore.Proofs.Heap.Views

/-!
# The weight of a heap

* `Arena.total` : the sum of a weight over all values of an arena, and how each change of an arena
  changes it;
* `Heap.weigh w h` : the sum of the weight `w` over all live bodies; `Heap.kept` and `Heap.viewCount` : the
  bytes that live nodes hold themselves, and the number of live views;
* `sum_viewsOver_le` : every view is over one node;
* `stable_weigh` : no step that makes no node makes a heap heavier; `takes_ofBytes`, `takes_ofOwner`,
  `takes_part`, `takes_append` : by how much the others do.
-/

namespace RopeStore

/-! ## Sums over an arena -/

namespace Arena
variable {α : Type}

def total (a : Arena α) (f : α → Nat) : Nat := ∑ i ∈ Finset.range a.size, (a.get? i).elim 0 f

theorem total_push (a : Arena α) (x : α) (f : α → Nat) : (a.push x).total f = a.total f + f x := by
  rw [total, size_push, Finset.sum_range_succ, get?_push_size]
  congr 1
  refine Finset.sum_congr rfl fun i hi => ?_
  rw [get?_push_of_ne x (Nat.ne_of_lt (Finset.mem_range.1 hi))]

/-- Another value: what the sum was, with the new value in the old one's place. -/
theorem total_set {a : Arena α} {i : Nat} {x : α} (h : a.get? i = some x) (y : α) (f : α → Nat) :
    (a.set i y).total f + f x = a.total f + f y := by
  have hi := lt_size_of_get?_eq_some h
  have hmem := Finset.mem_range.2 hi
  rw [total, total, size_set, ← Finset.add_sum_erase _ _ hmem, ← Finset.add_sum_erase _ _ hmem,
    get?_set_self y hi, h]
  have hrest : ∑ j ∈ (Finset.range a.size).erase i, ((a.set i y).get? j).elim 0 f =
      ∑ j ∈ (Finset.range a.size).erase i, (a.get? j).elim 0 f := by
    refine Finset.sum_congr rfl fun j hj => ?_
    rw [get?_set_of_ne a y (Ne.symm (Finset.mem_erase.1 hj).1)]
  rw [hrest, Option.elim_some, Option.elim_some]
  omega

theorem le_total {a : Arena α} {i : Nat} {x : α} (h : a.get? i = some x) (f : α → Nat) :
    f x ≤ a.total f := by
  have hle := Finset.single_le_sum (f := fun i => (a.get? i).elim 0 f) (fun _ _ => Nat.zero_le _)
    (Finset.mem_range.2 (lt_size_of_get?_eq_some h))
  rwa [h, Option.elim_some] at hle

theorem count_eq_total (a : Arena α) (p : α → Bool) :
    a.count p = a.total fun x => if p x then 1 else 0 := by
  have hcard : ((Finset.range a.size).filter fun i => (a.get? i).any p).card = a.count p := by
    rw [count_eq_length, Finset.card_def, Finset.filter_val, Finset.range_val, Multiset.range,
      Multiset.filter_coe, Multiset.coe_card]
    simp only [Bool.decide_eq_true]
  rw [← hcard, Finset.card_filter, total]
  refine Finset.sum_congr rfl fun i _ => ?_
  cases a.get? i <;> rfl

theorem total_erase_le (a : Arena α) (i : Nat) (f : α → Nat) : (a.erase i).total f ≤ a.total f := by
  rw [total, total, size_erase]
  refine Finset.sum_le_sum fun j _ => ?_
  by_cases hj : i = j
  · rw [← hj, get?_erase_self]
    exact Nat.zero_le _
  · rw [get?_erase_of_ne a hj]

end Arena

/-! ## Weights of bodies -/

/-- The number of bytes that a body holds itself. -/
def Body.heldLength {ρ : Type} (b : Body ρ) : Nat := (b.stored?.getD []).length

def Body.viewWeight {ρ : Type} (b : Body ρ) : Nat := if b.child?.isSome then 1 else 0

namespace Heap
variable {ρ : Type} {h : Heap ρ} {id : NodeId} {n m : Node ρ} {w : Body ρ → Nat} {k c : Nat}

/-- The sum of a weight over all live bodies. -/
def weigh (w : Body ρ → Nat) (h : Heap ρ) : Nat := h.nodes.total fun n => w n.body

/-- The bytes that live nodes hold themselves. Each node counts once, and a view does not count. -/
def kept (h : Heap ρ) : Nat := h.weigh Body.heldLength

def viewCount (h : Heap ρ) : Nat := h.weigh Body.viewWeight

theorem weigh_push (h : Heap ρ) (n : Node ρ) : (h.push n).weigh w = h.weigh w + w n.body :=
  Arena.total_push ..

theorem weigh_put (hn : h.find? id = some n) : (h.put id m).weigh w + w n.body = h.weigh w + w m.body :=
  Arena.total_set hn m _

/-- A body grows by `c` at most, and so does the heap. -/
theorem weigh_put_le (hn : h.find? id = some n) (hc : w m.body ≤ w n.body + c)
    (hk : h.weigh w ≤ k) : (h.put id m).weigh w ≤ k + c := by
  have hput := weigh_put (m := m) (w := w) hn
  omega

theorem weigh_without_le (h : Heap ρ) (id : NodeId) : (h.without id).weigh w ≤ h.weigh w :=
  Arena.total_erase_le ..

theorem le_weigh (hn : h.find? id = some n) (w : Body ρ → Nat) : w n.body ≤ h.weigh w :=
  Arena.le_total hn fun n => w n.body

/-- Every view is over one node. -/
theorem sum_viewsOver_le (h : Heap ρ) :
    ∑ i ∈ Finset.range h.nodes.size, h.viewsOver ⟨i⟩ ≤ h.viewCount :=
  calc ∑ i ∈ Finset.range h.nodes.size, h.viewsOver ⟨i⟩
      = ∑ i ∈ Finset.range h.nodes.size, ∑ j ∈ Finset.range h.nodes.size,
          (h.nodes.get? j).elim 0 fun n => if n.body.child? = some ⟨i⟩ then 1 else 0 := by
        refine Finset.sum_congr rfl fun i _ => ?_
        rw [viewsOver, Arena.count_eq_total, Arena.total]
        simp only [decide_eq_true_eq]
    _ = ∑ j ∈ Finset.range h.nodes.size, ∑ i ∈ Finset.range h.nodes.size,
          (h.nodes.get? j).elim 0 fun n => if n.body.child? = some ⟨i⟩ then 1 else 0 :=
        Finset.sum_comm
    _ ≤ ∑ j ∈ Finset.range h.nodes.size, (h.nodes.get? j).elim 0 fun n => n.body.viewWeight := by
        refine Finset.sum_le_sum fun j _ => ?_
        cases h.nodes.get? j with
        | none => simp
        | some n =>
          simp only [Option.elim_some, Body.viewWeight]
          cases n.body.child? with
          | none => simp
          | some child =>
            simp only [Option.some.injEq, ← index_inj, Finset.sum_ite_eq, Option.isSome_some]
            split <;> simp

theorem stable_weigh (w : Body ρ → Nat) (k : Nat) : Stable fun h : Heap ρ => h.weigh w ≤ k where
  tell _ hk := hk
  putRefs hn _ _ hk := weigh_put_le (c := 0) hn (Nat.le_refl _) hk
  without _ _ hk := Nat.le_trans (weigh_without_le ..) hk

/-! ## Steps that make a heap heavier -/

theorem takes_of_push {op : HeapM ρ NodeId}
    (hrun : ∀ h, ∃ b, op.run h = .ok h.next (h.push ⟨.fresh, b⟩) ∧ w b ≤ c) :
    Takes (fun h => h.weigh w ≤ k) (fun h => h.weigh w ≤ k + c) op := by
  intro h hk
  obtain ⟨b, hrun, hc⟩ := hrun h
  refine leaves_of_run_eq_ok hrun ?_
  show weigh w (h.push _) ≤ k + c
  rw [weigh_push]
  exact Nat.add_le_add hk hc

theorem takes_ofBytes {data : List UInt8} (hlen : data.length ≤ SizeClass.maxLargeLength)
    (hw : ∀ tag, w (.buffer tag data) ≤ c) :
    Takes (fun h => h.weigh w ≤ k) (fun h => h.weigh w ≤ k + c) (ofBytes data) :=
  takes_of_push fun h => by
    obtain ⟨tag, hrun, -⟩ := run_ofBytes_of_le hlen h
    exact ⟨_, hrun, hw tag⟩

theorem takes_ofOwner {data : List UInt8} {owner : ρ} (hw : w (.external data (.lent owner)) ≤ c) :
    Takes (fun h => h.weigh w ≤ k) (fun h => h.weigh w ≤ k + c) (ofOwner data owner) :=
  takes_of_push fun h => ⟨_, run_ofOwner data owner h, hw⟩

theorem takes_part (hw : ∀ start count child, w (.view start count child) ≤ c) (id : NodeId)
    (pos count : Nat) :
    Takes (fun h => h.weigh w ≤ k) (fun h => h.weigh w ≤ k + c) (part id pos count) := by
  have hless : ∀ h : Heap ρ, h.weigh w ≤ k → h.weigh w ≤ k + c := fun _ hk =>
    Nat.le_add_right_of_le hk
  refine (stable_weigh w k).part hless (fun child start count => ?_) id pos count
  refine (stable_weigh w k).newView hless fun h hk => ?_
  rw [weigh_push]
  exact Nat.add_le_add hk (hw start count child)

/-- An append writes to one buffer at most. -/
theorem takes_append {data : List UInt8}
    (hw : ∀ tag old count, w (.buffer tag (old ++ data.take count)) ≤ w (.buffer tag old) + c)
    (id : NodeId) : Takes (fun h => h.weigh w ≤ k) (fun h => h.weigh w ≤ k + c) (append id data) := by
  have hp := stable_weigh w k
  intro h hk
  have hless : ∀ h : Heap ρ, h.weigh w ≤ k → h.weigh w ≤ k + c := fun _ hk =>
    Nat.le_add_right_of_le hk
  refine Leaves.bind ((hp.leaves_ask hk _).mono (fun _ _ hread => hread) fun _ t ht => hless t ht) ?_
  rintro n _ ⟨hread, rfl⟩
  have hn := node_eq_ok_iff.1 hread
  split
  · rename_i tag old hbody
    split
    · refine Leaves.bind
        ((hp.leaves_attempt hk _).mono (fun _ _ hok => hok) fun _ t ht => hless t ht) ?_
      rintro capacity _ ⟨-, rfl⟩
      refine Leaves.bind
        ((hp.leaves_attempt hk _).mono (fun _ _ hok => hok) fun _ t ht => hless t ht) ?_
      rintro room _ ⟨-, rfl⟩
      exact weigh_put_le hn (hbody ▸ hw tag old (min data.length room)) hk
    · exact hless _ hk
  · exact hless _ hk

end Heap
end RopeStore
