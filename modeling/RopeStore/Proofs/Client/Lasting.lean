import Mathlib.Data.List.Basic
import RopeStore.Proofs.Client.Machine
import RopeStore.Proofs.Heap.Stable

/-!
# Properties of the heap that a client keeps

A client reaches its heap through operations on nodes only. What each of those keeps, every act keeps.

* `Lasting P` : every operation on nodes but an append keeps the property `P` of heaps, also where it
  faults;
* `Stable.lasting` : so it is if nothing but the making of a node is looked at;
* `Lasting.dropRoot`, `Lasting.makeTree` and so on : then every operation on values keeps it;
* `Client.holds_keep`, `holds_perform`, `holds_change` : one lemma for each kind of act;
* `Lasting.act` : every act but an append keeps it.
-/

namespace RopeStore
open Value (ValueM Held)
variable {ρ α : Type} {P : Heap ρ → Prop}

/-- Every operation on nodes but an append keeps a property of heaps, also where it faults. -/
structure Lasting (P : Heap ρ → Prop) : Prop where
  newBuffer : ∀ length, Preserves P (Heap.newBuffer length)
  newLargeBuffer : ∀ length, Preserves P (Heap.newLargeBuffer length)
  ofBytes : ∀ data : Bytes, Preserves P (Heap.ofBytes data.1)
  bufferWithExtra : ∀ (data : Bytes) extra, Preserves P (Heap.bufferWithExtra data.1 extra)
  ofOwner : ∀ (bytes : Bytes) owner, Preserves P (Heap.ofOwner bytes.1 owner)
  newStatic : ∀ bytes : Bytes, Preserves P (Heap.newStatic bytes.1)
  ofStatic : ∀ id, Preserves P (Heap.ofStatic id)
  part : ∀ id pos count, Preserves P (Heap.part id pos count)
  partOrCopy : ∀ id pos count, Preserves P (Heap.partOrCopy id pos count)
  retain : ∀ id, Preserves P (Heap.retain id)
  release : ∀ id, Preserves P (Heap.release id)

/-- What stays when a count changes or a node goes stays altogether if it stays when a node is made. -/
theorem Stable.lasting (hp : Stable P) (hg : Grows P)
    (hstatic : ∀ bytes : Bytes, Preserves P (Heap.newStatic bytes.1))
    (hview : ∀ child start count, Preserves P (Heap.newView child start count)) : Lasting P where
  newBuffer := hg.newBuffer
  newLargeBuffer := hg.newLargeBuffer
  ofBytes data := hg.ofBytes data.2
  bufferWithExtra data := hg.bufferWithExtra data.1
  ofOwner bytes := hg.ofOwner bytes.2
  newStatic := hstatic
  ofStatic := hp.ofStatic
  part := hp.part (fun _ hh => hh) hview
  partOrCopy := hp.partOrCopy hg hview
  retain := hp.retain
  release := hp.release

/-! ## Operations on values -/

section Values

theorem preserves_onHeap {op : HeapM ρ α} (hop : Preserves P op) :
    Preserves (fun s : Held ρ => P s.heap) (Value.onHeap op) :=
  fun s hs => Value.leaves_onHeap.2 (hop s.heap hs)

theorem preserves_put (change : Except Fault Value) :
    Preserves (fun s : Held ρ => P s.heap) (Value.put change) :=
  (preserves_ofExcept change).bind fun _ => preserves_modify fun _ hs => hs

namespace Lasting

theorem clone (hl : Lasting P) (id : NodeId) : Preserves P (do Heap.retain id; return id) :=
  (hl.retain id).bind fun _ => preserves_pure id

theorem dropRoot (hl : Lasting P) : Preserves (fun s : Held ρ => P s.heap) Value.dropRoot := by
  refine preserves_get.bind fun s => ?_
  obtain ⟨root, value⟩ := s.value.takeRoot
  refine Preserves.bind (preserves_modify fun _ hs => hs) fun _ => ?_
  cases root with
  | some root => exact preserves_onHeap (hl.release root)
  | none => exact preserves_pure _

theorem setBytes (hl : Lasting P) (data : List UInt8) :
    Preserves (fun s : Held ρ => P s.heap) (Value.setBytes data) :=
  hl.dropRoot.bind fun _ => preserves_put _

theorem clear (hl : Lasting P) : Preserves (fun s : Held ρ => P s.heap) Value.clear :=
  hl.setBytes []

theorem handingOver (hl : Lasting P) (root : NodeId) {op : ValueM ρ α}
    (hop : Preserves (fun s : Held ρ => P s.heap) op) :
    Preserves (fun s : Held ρ => P s.heap) (Value.handingOver root op) :=
  hop.tryCatch fun fault =>
    (preserves_onHeap (hl.release root)).bind fun _ => preserves_throw fault

theorem makeTree (hl : Lasting P) (root : NodeId) :
    Preserves (fun s : Held ρ => P s.heap) (Value.makeTree root) :=
  hl.handingOver root (hl.dropRoot.bind fun _ => preserves_put _)

theorem replaceRoot (hl : Lasting P) (root : NodeId) :
    Preserves (fun s : Held ρ => P s.heap) (Value.replaceRoot root) :=
  hl.handingOver root <| preserves_get.bind fun _ => (preserves_ofExcept _).bind fun (old, _) =>
    Preserves.bind (preserves_modify fun _ hs => hs) fun _ => preserves_pure old

theorem extractRoot : Preserves (fun s : Held ρ => P s.heap) Value.extractRoot := by
  refine preserves_get.bind fun s => ?_
  obtain ⟨root, value⟩ := s.value.takeRoot
  exact Preserves.bind (preserves_modify fun _ hs => hs) fun _ => preserves_pure root

theorem copyValue (hl : Lasting P) (data : Bytes) : Preserves P (Value.copy data.1) := by
  unfold Value.copy
  split
  · rename_i hdata
    rw [Value.ofShort, if_pos hdata]
    exact preserves_pure _
  · exact (hl.ofBytes data).bind fun _ => preserves_pure _

theorem cloneValue (hl : Lasting P) (v : Value) : Preserves P (Value.clone v) := by
  unfold Value.clone
  split
  · exact (hl.retain _).bind fun _ => preserves_pure _
  · exact preserves_pure _

end Lasting
end Values

/-! ## Acts -/

namespace Client
variable {c : Client ρ} {i : Nat}

theorem holds_elim {β : Type} {o : Option β} {use : β → Client ρ} (hc : P c.heap)
    (huse : ∀ x, P (use x).heap) : P (o.elim c use).heap := by
  cases o with
  | none => exact hc
  | some x => exact huse x

theorem holds_keep {op : HeapM ρ NodeId} (hc : P c.heap) (hop : Preserves P op) :
    P (c.keep op).heap := by
  have hleaves := hop c.heap hc
  unfold Leaves at hleaves
  unfold keep
  cases hrun : op.run c.heap <;> rw [hrun] at hleaves <;> exact hleaves

theorem holds_keepValue {op : HeapM ρ Value} (hc : P c.heap) (hop : Preserves P op) :
    P (c.keepValue op).heap := by
  have hleaves := hop c.heap hc
  unfold Leaves at hleaves
  unfold keepValue
  cases hrun : op.run c.heap <;> rw [hrun] at hleaves <;> exact hleaves

theorem holds_perform {op : HeapM ρ α} (hc : P c.heap) (hop : Preserves P op) :
    P (c.perform op).heap := by
  have hleaves := hop c.heap hc
  unfold Leaves at hleaves
  unfold perform
  cases hrun : op.run c.heap <;> rw [hrun] at hleaves <;> exact hleaves

theorem holds_change {op : ValueM ρ α} (hc : P c.heap)
    (hop : Preserves (fun s : Held ρ => P s.heap) op) (i : Nat) (v : Value)
    (handed : α → List NodeId) : P (c.change i v op handed).heap := by
  have hleaves := hop ⟨c.heap, v⟩ hc
  unfold Leaves at hleaves
  unfold change
  cases hrun : op.run ⟨c.heap, v⟩ <;> rw [hrun] at hleaves <;> exact hleaves

theorem holds_spend {use : Client ρ → NodeId → Client ρ} (hc : P c.heap)
    (huse : ∀ rest id, P rest.heap → P (use rest id).heap) : P (c.spend i use).heap :=
  holds_elim hc fun id => huse _ id hc

theorem holds_dropValue (hl : Lasting P) (hc : P c.heap) (i : Nat) :
    P (c.act (.dropValue i)).heap := by
  refine holds_elim hc fun v => ?_
  have hleaves := hl.dropRoot ⟨c.heap, v⟩ hc
  unfold Leaves at hleaves
  unfold Value.drop
  cases hrun : Value.dropRoot.run ⟨c.heap, v⟩ <;> rw [hrun] at hleaves <;> exact hleaves

end Client

/-- **What every operation on nodes but an append keeps, every act but an append keeps.** -/
theorem Lasting.act (hl : Lasting P) {c : Client ρ} (hc : P c.heap) {a : Act ρ}
    (ha : ∀ i data, a ≠ .append i data) : P (c.act a).heap := by
  open Client in
  cases a with
  | newBuffer length => exact holds_keep hc (hl.newBuffer length)
  | newLargeBuffer length => exact holds_keep hc (hl.newLargeBuffer length)
  | ofBytes data => exact holds_keep hc (hl.ofBytes data)
  | bufferWithExtra data extra => exact holds_keep hc (hl.bufferWithExtra data extra)
  | lend bytes owner => exact holds_keep hc (hl.ofOwner bytes owner)
  | newStatic bytes => exact hl.newStatic bytes c.heap hc
  | ofStatic i => exact holds_elim hc fun id => holds_keep hc (hl.ofStatic id)
  | empty => exact holds_keep hc (hl.ofStatic Heap.emptyId)
  | part of pos count => exact holds_elim hc fun id => holds_keep hc (hl.part id pos count)
  | partOrCopy of pos count =>
    exact holds_elim hc fun id => holds_keep hc (hl.partOrCopy id pos count)
  | append i data => exact absurd rfl (ha i data)
  | clone of => exact holds_elim hc fun id => holds_keep hc (hl.clone id)
  | drop i => exact holds_spend hc fun _ id hrest => holds_perform hrest (hl.release id)
  | intoRaw i => exact holds_spend hc fun _ _ hrest => hrest
  | fromRaw i => exact holds_elim hc fun _ => hc
  | newValue => exact hc
  | shortValue data =>
    rw [Client.act]
    split <;> exact hc
  | treeValue i => exact holds_spend hc fun _ _ hrest => hrest
  | copyValue data => exact holds_keepValue hc (hl.copyValue data)
  | cloneValue i => exact holds_elim hc fun v => holds_keepValue hc (hl.cloneValue v)
  | dropValue i => exact holds_dropValue hl hc i
  | setBytes i data => exact holds_elim hc fun v => holds_change hc (hl.setBytes data.1) i v _
  | makeTree i j =>
    exact holds_elim hc fun v => holds_spend hc fun _ root hrest =>
      holds_change hrest (hl.makeTree root) i v _
  | replaceRoot i j =>
    exact holds_elim hc fun v => holds_spend hc fun _ root hrest =>
      holds_change hrest (hl.replaceRoot root) i v _
  | extractRoot i => exact holds_elim hc fun v => holds_change hc extractRoot i v _
  | clear i => exact holds_elim hc fun v => holds_change hc hl.clear i v _

end RopeStore
