import Mathlib.Data.List.Basic
import RopeStore.Proofs.Heap.Content
import RopeStore.Proofs.Heap.Stable

/-!
# Ways that leave the bytes of every node alone

* `Steady h h'` : on the way from `h` to `h'` nodes came and went, and no body changed;
* `stable_steady` : so it is where counts change, nodes go and notices are left;
* `bytes_of_steady` : a node that is live before and after a steady way keeps its bytes.
-/

namespace RopeStore
variable {ρ : Type}

/-- Nodes came and went, and no body changed. -/
structure Steady (h h' : Heap ρ) : Prop where
  size : h.nodes.size ≤ h'.nodes.size
  body : ∀ id b, id.index < h.nodes.size → h'.body? id = some b → h.body? id = some b

namespace Steady
variable {h h' h'' : Heap ρ} {id : NodeId} {n : Node ρ}

theorem refl (h : Heap ρ) : Steady h h := ⟨Nat.le_refl _, fun _ _ _ hb => hb⟩

theorem trans (h₁ : Steady h h') (h₂ : Steady h' h'') : Steady h h'' where
  size := Nat.le_trans h₁.size h₂.size
  body := fun id b hid hb => h₁.body id b hid (h₂.body id b (Nat.lt_of_lt_of_le hid h₁.size) hb)

theorem push (h : Heap ρ) (n : Node ρ) : Steady h (h.push n) where
  size := by
    rw [Heap.size_push]
    exact Nat.le_succ _
  body := by
    intro id b hid hb
    rwa [Heap.body?_push, if_neg] at hb
    rintro rfl
    exact Nat.lt_irrefl _ hid

theorem putRefs (hn : h.find? id = some n) (refs : RefCount) :
    Steady h (h.put id { n with refs }) where
  size := Nat.le_of_eq (Arena.size_set ..).symm
  body := by
    intro j b _ hb
    rwa [Heap.body?_put_refs hn] at hb

theorem without (h : Heap ρ) (id : NodeId) : Steady h (h.without id) where
  size := Nat.le_of_eq (Arena.size_erase ..).symm
  body := by
    intro j b _ hb
    rw [Heap.body?_without] at hb
    split at hb
    · cases hb
    · exact hb

theorem tell (h : Heap ρ) (ns : List (Notice ρ)) : Steady h (h.tell ns) :=
  ⟨Nat.le_refl _, fun _ _ _ hb => hb⟩

/-- What is live before and after a steady way has one body. -/
theorem body?_eq (hs : Steady h h') {b b' : Body ρ} (hb : h.body? id = some b)
    (hb' : h'.body? id = some b') : b' = b := by
  have hsame := hs.body id b' (Heap.lt_size_of_body? hb) hb'
  rw [hb] at hsame
  exact (Option.some.inj hsame).symm

end Steady

/-- No node changes its body on a way that is begun in `h`. -/
theorem stable_steady (h : Heap ρ) : Stable (Steady h) where
  tell ns hs := hs.trans (.tell _ ns)
  putRefs hn refs _ hs := hs.trans (.putRefs hn refs)
  without _ _ hs := hs.trans (.without ..)

/-! ## Bytes -/

namespace Heap
variable {h h' : Heap ρ} {held held' : List NodeId} {id : NodeId}

/-- A node has the bytes that it had if it and the node below it have the bodies that they had. -/
theorem bytes_of_body?_eq (ho : Owned h held) (ho' : Owned h' held') {b : Body ρ}
    (hb : h.body? id = some b) (hb' : h'.body? id = some b)
    (hchild : ∀ child, b.child? = some child → h'.body? child = h.body? child) :
    ∃ data, h.bytes id = .ok data ∧ h'.bytes id = .ok data := by
  obtain ⟨data, hdata, hbytes, -⟩ := bytes_eq_ok ho hb
  obtain ⟨data', hdata', hbytes', -⟩ := bytes_eq_ok ho' hb'
  rw [content?_congr hb hb' hchild, hdata] at hdata'
  obtain rfl := Option.some.inj hdata'
  exact ⟨data, hbytes, hbytes'⟩

/-- **A node that is live before and after a steady way keeps its bytes.** The node below a view is
live as long as the view. -/
theorem bytes_of_steady (ho : Owned h held) (ho' : Owned h' held') (hs : Steady h h')
    {b b' : Body ρ} (hb : h.body? id = some b) (hb' : h'.body? id = some b') :
    ∃ data, h.bytes id = .ok data ∧ h'.bytes id = .ok data := by
  obtain rfl := hs.body?_eq hb hb'
  refine bytes_of_body?_eq ho ho' hb hb' fun child hchild => ?_
  obtain ⟨c, hc, -⟩ := (ho.sound hb).child hchild
  obtain ⟨c', hc', -⟩ := (ho'.sound hb').child hchild
  have hsame := hs.body?_eq (body?_of_find? hc) (body?_of_find? hc')
  rw [body?_of_find? hc, body?_of_find? hc', hsame]

end Heap
end RopeStore
