import Mathlib.Data.List.Basic
import Mathlib.Data.List.Induction
import Mathlib.Data.List.Nodup
import Mathlib.Data.List.Perm.Subperm
import RopeStore.Proofs.Heap.Balance

/-!
# Owners, counted from outside

* `Arena.count_eq_length` : the number of values with a property, as the length of a list of numbers;
* `Heap.views held id` : the views over node `id` among the references in `held`, each once;
* `Owned.viewsOver_eq` : there are no other views, since a view has owners and none of them is a view;
* `Owned.few` : few references make few owners.
-/

namespace RopeStore

theorem Arena.count_eq_length {α : Type} (a : Arena α) (p : α → Bool) :
    a.count p = ((List.range a.size).filter fun i => (a.get? i).any p).length := by
  obtain ⟨⟨slots⟩⟩ := a
  simp only [count, size, get?, List.size_toArray, List.getElem?_toArray, List.countP_toArray]
  rw [← List.countP_eq_length_filter]
  induction slots using List.reverseRecOn with
  | nil => rfl
  | append_singleton rest slot ih =>
    have hold : ∀ i ∈ List.range rest.length,
        (((rest ++ [slot])[i]?.join).any p = true ↔ (rest[i]?.join).any p = true) := by
      intro i hi
      rw [List.getElem?_append_left (List.mem_range.1 hi)]
    rw [List.length_append, List.length_singleton, List.range_succ, List.countP_append,
      List.countP_append, List.countP_congr hold, ← ih, List.countP_singleton,
      List.countP_singleton, List.getElem?_concat_length, Option.join_some]

theorem nodup_eraseDups {α : Type} [DecidableEq α] (l : List α) : l.eraseDups.Nodup := by
  induction hlen : l.length using Nat.strongRecOn generalizing l with
  | ind n ih =>
    cases l with
    | nil => exact List.nodup_nil
    | cons a rest =>
      have hshorter : (rest.filter fun b => !b == a).length < n := by
        have hle := List.length_filter_le (fun b => !b == a) rest
        rw [List.length_cons] at hlen
        omega
      rw [List.eraseDups_cons]
      refine List.nodup_cons.2 ⟨fun hmem => ?_, ih _ hshorter _ rfl⟩
      rw [List.mem_eraseDups, List.mem_filter] at hmem
      simp at hmem

variable {ρ : Type} {h : Heap ρ} {held : List NodeId} {id j : NodeId}

def Heap.child? (h : Heap ρ) (id : NodeId) : Option NodeId := (h.body? id).bind Body.child?

/-- The views over node `id` among the references in `held`, each once. -/
def Heap.views (h : Heap ρ) (held : List NodeId) (id : NodeId) : List NodeId :=
  (held.filter fun j => h.child? j = some id).eraseDups

namespace Owned

theorem child?_eq_some (hc : h.child? j = some id) :
    ∃ n, h.find? j = some n ∧ n.body.child? = some id := by
  obtain ⟨b, hb, hchild⟩ := Option.bind_eq_some_iff.1 hc
  obtain ⟨n, hn, rfl⟩ := Heap.body?_eq_some_iff.1 hb
  exact ⟨n, hn, hchild⟩

theorem child?_child (ho : Owned h held) (hc : h.child? j = some id) : h.child? id = none := by
  obtain ⟨n, hn, hchild⟩ := child?_eq_some hc
  obtain ⟨m, hm, hflat⟩ := (ho.sound_of_find? hn).child hchild
  rw [Heap.child?, Heap.body?_of_find? hm]
  exact hflat

theorem viewsOver_view (ho : Owned h held) (hc : h.child? j = some id) : h.viewsOver j = 0 := by
  by_contra hne
  obtain ⟨k, n, hn, hover⟩ := Heap.viewsOver_pos_iff.1 (Nat.pos_of_ne_zero hne)
  have hkj : h.child? k = some j := by
    rw [Heap.child?, Heap.body?_of_find? hn]
    exact hover
  rw [ho.child?_child hkj] at hc
  cases hc

/-- Every view is held from outside. -/
theorem mem_of_child? (ho : Owned h held) (hc : h.child? j = some id) : j ∈ held := by
  obtain ⟨n, hn, hchild⟩ := child?_eq_some hc
  have hviews := ho.viewsOver_view hc
  cases ho.counts hn with
  | immortal hrefs hbody =>
    obtain ⟨bytes, hb⟩ := hbody
    rw [hb] at hchild
    cases hchild
  | mortal hrefs hpos hbody =>
    rw [hviews, Nat.add_zero] at hpos
    exact List.count_pos_iff.1 hpos

theorem viewsOver_eq (ho : Owned h held) (id : NodeId) :
    h.viewsOver id = (h.views held id).length := by
  rw [Heap.viewsOver, Arena.count_eq_length, Heap.views, ← List.length_map (f := NodeId.mk)]
  refine List.Perm.length_eq ((List.perm_ext_iff_of_nodup ?_ (nodup_eraseDups _)).2 fun j => ?_)
  · apply (List.nodup_range.filter _).map
    intro a b hab
    exact congrArg NodeId.index hab
  · rw [List.mem_eraseDups, List.mem_filter, List.mem_map]
    constructor
    · rintro ⟨i, hi, rfl⟩
      have hover := (List.mem_filter.1 hi).2
      rw [Option.any_eq_true] at hover
      obtain ⟨n, hn, hchild⟩ := hover
      have hc : h.child? ⟨i⟩ = some id := by
        rw [Heap.child?, Heap.body?_of_find? (show h.find? ⟨i⟩ = some n from hn)]
        exact of_decide_eq_true hchild
      exact ⟨ho.mem_of_child? hc, decide_eq_true hc⟩
    · rintro ⟨hmem, hc⟩
      obtain ⟨n, hn, hchild⟩ := child?_eq_some (of_decide_eq_true hc)
      refine ⟨j.index, List.mem_filter.2 ⟨List.mem_range.2 (Heap.lt_size_of_find? hn), ?_⟩, rfl⟩
      rw [show h.nodes.get? j.index = some n from hn]
      exact decide_eq_true hchild

theorem owners_le (ho : Owned h held) (id : NodeId) :
    held.count id + h.viewsOver id ≤ held.length := by
  have hviews : (h.views held id).length ≤ held.countP fun j => h.child? j = some id := by
    rw [List.countP_eq_length_filter]
    refine (List.subperm_of_subset (nodup_eraseDups _) fun j hj => ?_).length_le
    exact List.mem_eraseDups.1 hj
  -- a node is not its own child, so the two kinds of owners are different references
  have hother : (held.countP fun j => h.child? j = some id) ≤ held.countP fun j => ¬ (j == id) := by
    apply List.countP_mono_left
    intro j _ hj
    have hc := of_decide_eq_true hj
    apply decide_eq_true
    intro heq
    rw [eq_of_beq heq] at hc
    rw [ho.child?_child hc] at hc
    cases hc
  rw [ho.viewsOver_eq, List.length_eq_countP_add_countP (fun j => j == id) (l := held)]
  exact Nat.add_le_add_left (Nat.le_trans hviews hother) _

theorem few (ho : Owned h held) (hlen : held.length < RefCount.bound) : Few h held :=
  fun id => Nat.lt_of_le_of_lt (ho.owners_le id) hlen

end Owned
end RopeStore
