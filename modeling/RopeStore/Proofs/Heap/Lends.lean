import Mathlib.Data.List.Basic
import Mathlib.Data.List.Nodup
import RopeStore.Proofs.Heap.Release

/-!
# Outside owners

* `Heap.owner?` : the outside owner of the bytes of a node;
* `Lends h keys` : the outside owners whose bytes the heap `h` stands for, each with one node;
* `Lends.push`, `Lends.lost` : a new node may have a new owner, and what was destroyed gives its bytes
  back;
* `Lends.owners_of_notices` : the notices tell just those owners.
-/

namespace RopeStore
variable {ρ : Type} {h h' : Heap ρ} {id : NodeId}

def Body.owner? : Body ρ → Option ρ
  | .external _ (.lent owner) => some owner
  | _ => none

def Notice.owner? : Notice ρ → Option ρ
  | .returned _ (.lent owner) => some owner
  | _ => none

theorem Body.owner?_farewell? (b : Body ρ) : b.farewell?.bind Notice.owner? = b.owner? := by
  rcases b with _ | ⟨bytes, _ | _ | owner⟩ | _ | _ <;> rfl

namespace Heap

/-- The outside owner of the bytes of node `id` itself. -/
def owner? (h : Heap ρ) (id : NodeId) : Option ρ := (h.body? id).bind Body.owner?

end Heap

/-- The outside owners whose bytes the heap stands for, each with one node. -/
structure Lends (h : Heap ρ) (keys : List ρ) : Prop where
  nodup : keys.Nodup
  mem_iff : ∀ key, key ∈ keys ↔ ∃ id, h.owner? id = some key
  injective : ∀ {i j key}, h.owner? i = some key → h.owner? j = some key → i = j

namespace Lends
variable {keys : List ρ}

theorem congr (hl : Lends h keys) (hsame : ∀ id, h'.owner? id = h.owner? id) : Lends h' keys where
  nodup := hl.nodup
  mem_iff := by simpa only [hsame] using hl.mem_iff
  injective := by simpa only [hsame] using @hl.injective

theorem push {o : Option ρ} (hl : Lends h keys)
    (hnew : ∀ id, h'.owner? id = if id = h.next then o else h.owner? id)
    (hfresh : ∀ key ∈ o, key ∉ keys) : Lends h' (o.toList ++ keys) where
  nodup := by
    refine List.nodup_append.2 ⟨?_, hl.nodup, ?_⟩
    · cases o <;> simp
    · rintro a ha b hb rfl
      exact hfresh a (Option.mem_toList.1 ha) hb
  mem_iff := by
    intro key
    have hnext : h.owner? h.next = none := by
      rw [Heap.owner?, Heap.body?, Heap.find?_next]
      rfl
    rw [List.mem_append, Option.mem_toList, hl.mem_iff]
    constructor
    · rintro (hkey | ⟨id, hid⟩)
      · exact ⟨h.next, by rw [hnew, if_pos rfl]; exact hkey⟩
      · refine ⟨id, ?_⟩
        rw [hnew, if_neg, hid]
        rintro rfl
        rw [hnext] at hid
        cases hid
    · rintro ⟨id, hid⟩
      rw [hnew] at hid
      by_cases heq : id = h.next
      · rw [if_pos heq] at hid
        exact Or.inl hid
      · rw [if_neg heq] at hid
        exact Or.inr ⟨id, hid⟩
  injective := by
    intro i j key hi hj
    rw [hnew] at hi hj
    by_cases hi' : i = h.next <;> by_cases hj' : j = h.next
    · rw [hi', hj']
    · rw [if_pos hi'] at hi
      rw [if_neg hj'] at hj
      exact absurd ((hl.mem_iff key).2 ⟨j, hj⟩) (hfresh key hi)
    · rw [if_neg hi'] at hi
      rw [if_pos hj'] at hj
      exact absurd ((hl.mem_iff key).2 ⟨i, hi⟩) (hfresh key hj)
    · rw [if_neg hi'] at hi
      rw [if_neg hj'] at hj
      exact hl.injective hi hj

/-- The owners of what was destroyed are no longer among those of the heap. -/
theorem lost [DecidableEq ρ] {gone : List NodeId} (hl : Lends h keys) (hlost : Lost h h' gone) :
    ∃ keys', Lends h' keys' ∧ keys.Perm (gone.filterMap h.owner? ++ keys') := by
  have howner : ∀ id, h'.owner? id = if id ∈ gone then none else h.owner? id := by
    intro id
    rw [Heap.owner?, hlost.body]
    split <;> rfl
  have hsub : ∀ key ∈ gone.filterMap h.owner?, key ∈ keys := by
    intro key hkey
    obtain ⟨id, -, hid⟩ := List.mem_filterMap.1 hkey
    exact (hl.mem_iff key).2 ⟨id, hid⟩
  refine ⟨keys.filter (· ∉ gone.filterMap h.owner?), ⟨hl.nodup.filter _, ?_, ?_⟩, ?_⟩
  · intro key
    rw [List.mem_filter, hl.mem_iff, decide_eq_true_eq]
    constructor
    · rintro ⟨⟨id, hid⟩, hstays⟩
      refine ⟨id, ?_⟩
      rw [howner, if_neg, hid]
      exact fun hmem => hstays (List.mem_filterMap.2 ⟨id, hmem, hid⟩)
    · rintro ⟨id, hid⟩
      rw [howner] at hid
      by_cases hmem : id ∈ gone
      · rw [if_pos hmem] at hid
        cases hid
      · rw [if_neg hmem] at hid
        refine ⟨⟨id, hid⟩, fun hkey => hmem ?_⟩
        obtain ⟨j, hj, hjkey⟩ := List.mem_filterMap.1 hkey
        rwa [hl.injective hid hjkey]
  · intro i j key hi hj
    rw [howner] at hi hj
    by_cases hi' : i ∈ gone
    · rw [if_pos hi'] at hi
      cases hi
    · by_cases hj' : j ∈ gone
      · rw [if_pos hj'] at hj
        cases hj
      · rw [if_neg hi'] at hi
        rw [if_neg hj'] at hj
        exact hl.injective hi hj
  · have hnodup : (gone.filterMap h.owner?).Nodup :=
      hlost.nodup.filterMap fun i j key hi hj => hl.injective hi hj
    refine (List.perm_ext_iff_of_nodup hl.nodup (List.nodup_append.2
      ⟨hnodup, hl.nodup.filter _, ?_⟩)).2 fun key => ?_
    · rintro a ha b hb rfl
      exact of_decide_eq_true (List.mem_filter.1 hb).2 ha
    · rw [List.mem_append, List.mem_filter, decide_eq_true_eq]
      constructor
      · intro hkey
        by_cases hgone : key ∈ gone.filterMap h.owner?
        · exact Or.inl hgone
        · exact Or.inr ⟨hkey, hgone⟩
      · rintro (hgone | ⟨hkey, -⟩)
        · exact hsub key hgone
        · exact hkey

/-- The notices tell the owners that have their bytes back. -/
theorem owners_of_notices {gone : List NodeId} :
    (gone.filterMap fun id => (h.body? id).bind Body.farewell?).filterMap Notice.owner? =
      gone.filterMap h.owner? := by
  rw [List.filterMap_filterMap]
  apply List.filterMap_congr
  intro id _
  rw [Option.bind_assoc, Heap.owner?]
  congr 1
  funext b
  exact b.owner?_farewell?

end Lends
end RopeStore
