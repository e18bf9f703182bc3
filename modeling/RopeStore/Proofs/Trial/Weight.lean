import RopeStore.Proofs.Heap.Weight
import RopeStore.Proofs.Trial.Steps

/-!
# What the operations of a trial weigh

* `State.AtMost w k` : the heap of a trial weighs at most `k`; `preserves_*` : every step that makes no
  node keeps that, also where it faults;
* `Charge w cost` : an operation has to pay for the bodies that it makes or changes;
* `Charge.takes_step` : then an operation with its checks makes the heap heavier by its cost at most.
-/

namespace RopeStore.Trial
open Deferral (EntryId)

variable {α : Type} {s : State} {w : Body Nat → Nat} {k c : Nat}

/-- The heap of the trial weighs at most `k`. -/
def State.AtMost (w : Body Nat → Nat) (k : Nat) (s : State) : Prop := s.heap.weigh w ≤ k

theorem State.AtMost.more (hs : s.AtMost w k) : s.AtMost w (k + c) := Nat.le_add_right_of_le hs

/-! ## Steps that leave the heap alone -/

theorem preserves_log (line : Line) : Preserves (State.AtMost w k) (log line) := fun _ hs => hs

/-- A change of the model, or of what the heap tells, and then more. -/
theorem preserves_modify_bind {f : State → State} {g : PUnit → TrialM α}
    (hf : ∀ s, (f s).heap.nodes = s.heap.nodes) (hg : Preserves (State.AtMost w k) (g ⟨⟩)) :
    Preserves (State.AtMost w k) (modify f >>= g) := by
  refine Preserves.bind (preserves_modify fun s hs => ?_) fun _ => hg
  rwa [State.AtMost, Heap.weigh, hf]

theorem preserves_onQueue (op : Deferral.QueueM Nat α) :
    Preserves (State.AtMost w k) (onQueue op) := by
  intro s hs
  cases hrun : op.run s.queue with
  | ok a queue => exact leaves_of_run_eq_ok (run_onQueue hrun) hs
  | error cause queue => exact leaves_of_run_eq_error (run_onQueue_of_run_eq_error hrun) hs

theorem preserves_dropPayload (key : Nat) : Preserves (State.AtMost w k) (dropPayload key) :=
  fun _ hs => hs

theorem preserves_endHandle (handle : EntryId) : Preserves (State.AtMost w k) (endHandle handle) := by
  refine (preserves_onQueue _).bind fun key => ?_
  cases key with
  | some key => exact preserves_dropPayload key
  | none => exact preserves_log _

theorem preserves_endSnapshot (snapshot : EntryId) :
    Preserves (State.AtMost w k) (endSnapshot snapshot) :=
  (preserves_onQueue _).bind fun _ => (preserves_log _).bind fun _ =>
    preserves_forM (fun _ => (preserves_log _).bind fun _ => preserves_dropPayload _) _

theorem preserves_retireHandle (handle : EntryId) :
    Preserves (State.AtMost w k) (retireHandle handle) := by
  refine (preserves_onQueue _).bind fun cell => ?_
  split
  · exact preserves_throw _
  · exact (preserves_tick fun _ _ hs => hs).bind fun _ =>
      preserves_modify_bind (fun _ => rfl) (preserves_endHandle handle)

/-! ## Checks -/

theorem preserves_checkReleases : Preserves (State.AtMost w k) checkReleases := by
  refine preserves_get.bind fun _ => preserves_get.bind fun _ => preserves_modify_bind (fun _ => rfl) ?_
  refine (preserves_forM (fun key => ?_) _).bind fun _ =>
    preserves_get.bind fun _ => preserves_forM (fun _ => preserves_ensure _ _) _
  exact (preserves_log _).bind fun _ => preserves_get.bind fun _ => (preserves_ensure _ _).bind fun _ =>
    preserves_modify_bind (fun _ => rfl) (preserves_ensure _ _)

theorem preserves_checkSnapshot (id : UInt32) (snapshot : EntryId) (madeAt : Nat) :
    Preserves (State.AtMost w k) (checkSnapshot id snapshot madeAt) :=
  preserves_get.bind fun _ => (preserves_onQueue _).bind fun _ => (preserves_ensure _ _).bind fun _ =>
    (preserves_onQueue _).bind fun _ => (preserves_ensure _ _).bind fun _ =>
      preserves_forM (fun _ => (preserves_onQueue _).bind fun _ => preserves_ensure _ _) _

theorem preserves_checkQueue : Preserves (State.AtMost w k) checkQueue := by
  refine preserves_get.bind fun s => preserves_modify_bind (fun _ => rfl) ?_
  refine (preserves_filterM (fun d => ?_) _).bind fun waiting => preserves_modify_bind (fun _ => rfl) ?_
  · exact (preserves_ensure _ _).bind fun _ => preserves_pure _
  · refine (preserves_forM (fun _ => preserves_checkSnapshot _ _ _) _).bind fun _ => ?_
    exact (preserves_onQueue _).bind fun _ => (preserves_ensure _ _).bind fun _ =>
      (preserves_onQueue _).bind fun _ => (preserves_ensure _ _).bind fun _ =>
        (preserves_onQueue _).bind fun _ => preserves_ensure _ _

/-! ## Operations on the heap -/

theorem preserves_settle : Preserves (State.AtMost w k) settle := by
  refine preserves_get.bind fun _ => preserves_modify_bind (fun _ => rfl) ?_
  refine preserves_forM (fun notice => (preserves_log _).bind fun _ => ?_) _
  split
  · exact fun _ hs => hs
  · exact preserves_pure _

/-- What an operation does to the weight of a heap, it does to that of the trial. -/
theorem takes_onHeap {op : HeapM Nat α}
    (hop : Takes (fun h => h.weigh w ≤ k) (fun h => h.weigh w ≤ k + c) op) :
    Takes (State.AtMost w k) (State.AtMost w (k + c)) (onHeap op) := by
  intro s hs
  have hends := hop s.heap hs
  unfold Leaves at hends ⊢
  cases hrun : op.run s.heap with
  | ok a heap =>
    rw [hrun] at hends
    rw [run_onHeap hrun]
    exact (preserves_settle.bind fun _ => preserves_pure a) { s with heap } hends
  | error cause heap =>
    rw [hrun] at hends
    rw [run_onHeap_of_run_eq_error hrun]
    exact (preserves_settle.bind fun _ => preserves_throw _) { s with heap } hends

theorem preserves_onHeap {op : HeapM Nat α} (hop : Preserves (fun h => h.weigh w ≤ k) op) :
    Preserves (State.AtMost w k) (onHeap op) :=
  takes_onHeap (c := 0) hop

theorem preserves_release (id : NodeId) : Preserves (State.AtMost w k) (onHeap (Heap.release id)) :=
  preserves_onHeap ((Heap.stable_weigh w k).release id)

theorem preserves_insertNode (id : UInt32) (live : LiveNode) :
    Preserves (State.AtMost w k) (insertNode id live) := by
  refine (preserves_readHeap _).bind fun _ => (preserves_log _).bind fun _ =>
    preserves_get.bind fun _ => preserves_modify_bind (fun _ => rfl) ?_
  split
  · exact preserves_release _
  · exact preserves_pure _

theorem preserves_tearDown : Preserves (State.AtMost w k) tearDown :=
  preserves_get.bind fun _ => preserves_modify_bind (fun _ => rfl) <|
    (preserves_forM (fun _ => preserves_release _) _).bind fun _ =>
      (preserves_forM preserves_endHandle _).bind fun _ =>
        (preserves_forM (fun _ => preserves_endSnapshot _) _).bind fun _ =>
          preserves_checkReleases.bind fun _ => preserves_get.bind fun _ =>
            (preserves_ensure _ _).bind fun _ => (preserves_onQueue _).bind fun _ =>
              (preserves_ensure _ _).bind fun _ => (preserves_onQueue _).bind fun _ =>
                (preserves_ensure _ _).bind fun _ => preserves_get.bind fun _ => preserves_orFail _

/-! ## Operations that make nothing -/

section Operations
variable (limit : Nat)

theorem preserves_inserts (id : UInt32) (live : LiveNode) :
    Preserves (State.AtMost w k) (do insertNode id live; return true) :=
  (preserves_insertNode id live).bind fun _ => preserves_pure true

theorem preserves_cloneNode (id src : UInt32) :
    Preserves (State.AtMost w k) ((Op.cloneNode id src).perform limit) := by
  refine preserves_get.bind fun s => ?_
  split
  · exact preserves_pure _
  · exact (preserves_onHeap ((Heap.stable_weigh w k).retain _)).bind fun _ => preserves_inserts _ _

theorem preserves_dropNode (id : UInt32) :
    Preserves (State.AtMost w k) ((Op.dropNode id).perform limit) := by
  refine preserves_get.bind fun s => ?_
  split
  · exact preserves_modify_bind (fun _ => rfl) ((preserves_release _).bind fun _ => preserves_pure _)
  · exact preserves_pure _

theorem preserves_newSnapshot (id : UInt32) :
    Preserves (State.AtMost w k) ((Op.newSnapshot id).perform limit) := by
  refine (preserves_tick fun _ _ hs => hs).bind fun _ => (preserves_onQueue _).bind fun _ =>
    (preserves_log _).bind fun _ => preserves_get.bind fun _ => preserves_modify_bind (fun _ => rfl) ?_
  split
  · exact (preserves_endSnapshot _).bind fun _ => preserves_pure _
  · exact preserves_pure _

theorem preserves_dropSnapshot (id : UInt32) :
    Preserves (State.AtMost w k) ((Op.dropSnapshot id).perform limit) := by
  refine preserves_get.bind fun s => ?_
  split
  · exact preserves_modify_bind (fun _ => rfl)
      ((preserves_endSnapshot _).bind fun _ => preserves_pure _)
  · exact preserves_pure _

theorem preserves_newHandle (id : UInt32) :
    Preserves (State.AtMost w k) ((Op.newHandle id).perform limit) := by
  refine (preserves_newKey fun _ _ hs => hs).bind fun _ => (preserves_onQueue _).bind fun _ =>
    (preserves_onQueue _).bind fun _ => preserves_get.bind fun _ => (preserves_ensure _ _).bind fun _ =>
      preserves_get.bind fun _ => preserves_modify_bind (fun _ => rfl) ?_
  split
  · exact (preserves_retireHandle _).bind fun _ => preserves_pure _
  · exact preserves_pure _

theorem preserves_deleteHandle (id : UInt32) :
    Preserves (State.AtMost w k) ((Op.deleteHandle id).perform limit) := by
  refine preserves_get.bind fun s => ?_
  split
  · exact preserves_modify_bind (fun _ => rfl)
      ((preserves_retireHandle _).bind fun _ => preserves_pure _)
  · exact preserves_pure _

end Operations

/-! ## Operations that have to pay -/

/-- An operation pays for what it makes: for a new body all of its weight, and for a buffer that it
appends to, what the buffer gains. -/
structure Charge (w : Body Nat → Nat) (cost : Op → Nat) : Prop where
  newBuffer : ∀ id (length : UInt16) fill tag,
    w (.buffer tag (List.replicate length.toNat fill)) ≤ cost (.newBuffer id length fill)
  newExternal : ∀ id (length : UInt16) fill key,
    w (.external (List.replicate length.toNat fill) (.lent key)) ≤ cost (.newExternal id length fill)
  subRange : ∀ id src pos length start count child,
    w (.view start count child) ≤ cost (.subRange id src pos length)
  append : ∀ id (length fill : UInt8) tag old count,
    w (.buffer tag (old ++ (List.replicate length.toNat fill).take count)) ≤
      w (.buffer tag old) + cost (.append id length fill)

namespace Charge
variable {cost : Op → Nat}

theorem takes_newBuffer (hc : Charge w cost) (limit : Nat) (id : UInt32) (length : UInt16)
    (fill : UInt8) : Takes (State.AtMost w k) (State.AtMost w (k + cost (.newBuffer id length fill)))
      ((Op.newBuffer id length fill).perform limit) := by
  have hmax : UInt16.size ≤ SizeClass.maxLargeLength := by decide
  have hlength := length.toNat_lt_size
  have hdata : (List.replicate length.toNat fill).length ≤ SizeClass.maxLargeLength := by
    rw [List.length_replicate]
    omega
  refine (preserves_exceeds _ _).takes_bind (fun _ hs => hs.more) fun refused => ?_
  split
  · exact (preserves_pure _).takes fun _ hs => hs.more
  · refine (takes_onHeap (Heap.takes_ofBytes hdata (hc.newBuffer id length fill))).bind fun node => ?_
    exact (preserves_kindOf _).bind fun _ => (preserves_ensure _ _).bind fun _ => preserves_inserts _ _

theorem takes_newExternal (hc : Charge w cost) (limit : Nat) (id : UInt32) (length : UInt16)
    (fill : UInt8) : Takes (State.AtMost w k) (State.AtMost w (k + cost (.newExternal id length fill)))
      ((Op.newExternal id length fill).perform limit) := by
  refine (preserves_exceeds _ _).takes_bind (fun _ hs => hs.more) fun refused => ?_
  split
  · exact (preserves_pure _).takes fun _ hs => hs.more
  · refine (preserves_newKey fun _ _ hs => hs).takes_bind (fun _ hs => hs.more) fun key =>
      (takes_onHeap (Heap.takes_ofOwner (hc.newExternal id length fill key))).bind fun node => ?_
    exact (preserves_kindOf _).bind fun _ => (preserves_ensure _ _).bind fun _ =>
      preserves_modify_bind (fun _ => rfl) (preserves_inserts _ _)

theorem takes_subRange (hc : Charge w cost) (limit : Nat) (id src : UInt32) (pos length : UInt16) :
    Takes (State.AtMost w k) (State.AtMost w (k + cost (.subRange id src pos length)))
      ((Op.subRange id src pos length).perform limit) := by
  refine preserves_get.takes_bind (fun _ hs => hs.more) fun s => ?_
  split
  · exact (preserves_pure _).takes fun _ hs => hs.more
  · show Takes _ _ (if _ then _ else _)
    split
    · exact (preserves_pure _).takes fun _ hs => hs.more
    · refine (takes_onHeap (Heap.takes_part (hc.subRange id src pos length) _ _ _)).bind fun node => ?_
      exact (preserves_orFail _).bind fun _ => (preserves_checkPart _ _ _).bind fun _ =>
        preserves_inserts _ _

theorem takes_append (hc : Charge w cost) (limit : Nat) (id : UInt32) (length fill : UInt8) :
    Takes (State.AtMost w k) (State.AtMost w (k + cost (.append id length fill)))
      ((Op.append id length fill).perform limit) := by
  have hmore : ∀ s : State, s.AtMost w k → s.AtMost w (k + cost (.append id length fill)) :=
    fun _ hs => hs.more
  refine preserves_get.takes_bind hmore fun s => ?_
  split
  · exact (preserves_pure _).takes hmore
  · refine preserves_get.takes_bind hmore fun _ => (preserves_readHeap _).takes_bind hmore fun n =>
      (preserves_ensure _ _).takes_bind hmore fun _ =>
        (preserves_orFail _).takes_bind hmore fun capacity => ?_
    refine room_elim (motive := Takes _ _) ?_
    refine (preserves_orFail _).takes_bind hmore fun room =>
      (takes_onHeap (Heap.takes_append (hc.append id length fill) _)).bind fun count => ?_
    exact (preserves_ensure _ _).bind fun _ => (preserves_orFail _).bind fun _ =>
      preserves_modify_bind (fun _ => rfl) (preserves_pure _)

/-- **An operation makes the heap heavier by its cost at most**, also where it faults. -/
theorem takes_perform (hc : Charge w cost) (limit : Nat) (op : Op) :
    Takes (State.AtMost w k) (State.AtMost w (k + cost op)) (op.perform limit) := by
  have hmore : ∀ s : State, s.AtMost w k → s.AtMost w (k + cost op) := fun _ hs => hs.more
  cases op with
  | newBuffer id length fill => exact hc.takes_newBuffer limit id length fill
  | newExternal id length fill => exact hc.takes_newExternal limit id length fill
  | subRange id src pos length => exact hc.takes_subRange limit id src pos length
  | cloneNode id src => exact (preserves_cloneNode limit id src).takes hmore
  | dropNode id => exact (preserves_dropNode limit id).takes hmore
  | append id length fill => exact hc.takes_append limit id length fill
  | newSnapshot id => exact (preserves_newSnapshot limit id).takes hmore
  | dropSnapshot id => exact (preserves_dropSnapshot limit id).takes hmore
  | newHandle id => exact (preserves_newHandle limit id).takes hmore
  | deleteHandle id => exact (preserves_deleteHandle limit id).takes hmore

/-- The checks after an operation make nothing. -/
theorem takes_step (hc : Charge w cost) (limit : Nat) (op : Op) :
    Takes (State.AtMost w k) (State.AtMost w (k + cost op)) (step limit op) := by
  refine (preserves_log _).takes_bind (fun _ hs => hs.more) fun _ =>
    (hc.takes_perform limit op).bind fun did => ?_
  split
  · exact preserves_checkNodes.bind fun _ => preserves_checkReleases.bind fun _ => preserves_checkQueue
  · exact preserves_pure _

end Charge
end RopeStore.Trial
