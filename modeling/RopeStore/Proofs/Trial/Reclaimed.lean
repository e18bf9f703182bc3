import Mathlib.Data.List.Basic
import RopeStore.Proofs.Deferral.Sequence
import RopeStore.Proofs.Trial.Lines
import RopeStore.Proofs.Trial.Verdict

/-!
# Handles are reclaimed in the order of their deletion

A handle that waits is destroyed in the end, and those that wait are destroyed in the order in which
their waits began. What a trial logs tells all of that.

* `Told xs s` : the log of the trial accounts for the chain `xs` of its queue;
* `Told.preserves_*` : whatever leaves the queue alone keeps that;
* `Told.ends_endHandle`, `Told.ends_endSnapshot` : the ends of handles and snapshots write the lines that
  belong to what they do to the chain;
* `Told.leaves_perform`, `Told.leaves_step`, `Told.leaves_tearDown` : one operation, one with its checks,
  and the end, which leaves nothing waiting;
* `reclaimed_in_order` : the waits end in the order in which they began, each of them once.
-/

namespace RopeStore.Trial
open Deferral (EntryId Chronicle Kept Queue Known Orderly isHandle leaving staying leaving_sublist
  cell?_create_of_ne)
variable {α : Type} {s t : State} {xs ys handles : List EntryId} {c : Chronicle Nat} {q : Queue Nat}
  {e h : EntryId} {n key : Nat} {line : Line}

/-- The log accounts for the chain `xs` of the queue, and the handles whose wait was over are gone. -/
structure Told (xs : List EntryId) (s : State) : Prop where
  orderly : Orderly s.queue xs
  accounts : Accounts s.log.toList xs
  gone : ∀ h ∈ reclaimings s.log.toList, Known s.queue h ∧ s.queue.cell? h.serial = none

namespace Told

theorem congr (ht : Told xs s) (hqueue : t.queue = s.queue) (hlog : t.log = s.log) : Told xs t := by
  obtain ⟨horderly, haccounts, hgone⟩ := ht
  rw [← hqueue] at horderly hgone
  rw [← hlog] at haccounts hgone
  exact ⟨horderly, haccounts, hgone⟩

theorem push (ht : Told xs s) (hline : line.IsPlain) :
    Told xs { s with log := s.log.push line } where
  orderly := ht.orderly
  accounts := by
    rw [Array.toList_push]
    exact ht.accounts.plain hline rfl
  gone := by
    rw [Array.toList_push, reclaimings_append,
      show reclaimings [line] = [] from List.filterMap_cons_none hline.reclaimed, List.append_nil]
    exact ht.gone

/-- An operation on the queue ends no wait but those that it logs. -/
theorem advance {lines : List Line} (ht : Told xs s) (horderly : Orderly t.queue ys)
    (hlog : t.log.toList = s.log.toList ++ lines) (haccounts : Accounts (s.log.toList ++ lines) ys)
    (hnumber : t.queue.number = s.queue.number) (hsize : s.queue.cells.size ≤ t.queue.cells.size)
    (hstays : ∀ k < s.queue.cells.size, s.queue.cell? k = none → t.queue.cell? k = none)
    (hover : ∀ h ∈ reclaimings lines, Known t.queue h ∧ t.queue.cell? h.serial = none) : Told ys t where
  orderly := horderly
  accounts := by
    rw [hlog]
    exact haccounts
  gone := by
    intro h hh
    rw [hlog, reclaimings_append, List.mem_append] at hh
    refine hh.elim (fun hold => ?_) (hover h)
    obtain ⟨⟨hqueue, hserial⟩, hcell⟩ := ht.gone h hold
    exact ⟨⟨hqueue.trans hnumber.symm, Nat.lt_of_lt_of_le hserial hsize⟩, hstays _ hserial hcell⟩

/-- An operation on the queue that neither ends a wait nor begins one. -/
theorem quiet (ht : Told xs s) (horderly : Orderly t.queue xs) (hlog : t.log = s.log)
    (hnumber : t.queue.number = s.queue.number) (hsize : s.queue.cells.size ≤ t.queue.cells.size)
    (hstays : ∀ k < s.queue.cells.size, s.queue.cell? k = none → t.queue.cell? k = none) :
    Told xs t := by
  have hlines : t.log.toList = s.log.toList ++ [] := by rw [hlog, List.append_nil]
  refine ht.advance horderly hlines ?_ hnumber hsize hstays fun h hh => absurd hh List.not_mem_nil
  rw [List.append_nil]
  exact ht.accounts

/-! ## What leaves the queue alone -/

theorem preserves_log (hline : line.IsPlain) : Preserves (Told xs) (log line) :=
  fun _ hs => hs.push hline

/-- A change of the model, or of what the heap tells, and then more. -/
theorem preserves_modify_bind {f : State → State} {g : PUnit → TrialM α}
    (hf : ∀ s, (f s).queue = s.queue ∧ (f s).log = s.log) (hg : Preserves (Told xs) (g ⟨⟩)) :
    Preserves (Told xs) (modify f >>= g) :=
  (preserves_modify fun s hs => hs.congr (hf s).1 (hf s).2).bind fun _ => hg

theorem isPlain_ofNotice {ρ : Type} (notice : Notice ρ) :
    (Line.store (.ofNotice notice)).IsPlain := by
  cases notice <;> exact ⟨rfl, rfl, rfl⟩

theorem preserves_settle : Preserves (Told xs) settle := by
  refine preserves_get.bind fun _ => preserves_modify_bind (fun _ => ⟨rfl, rfl⟩) ?_
  refine preserves_forM (fun notice => (preserves_log (isPlain_ofNotice notice)).bind fun _ => ?_) _
  split
  · exact fun _ hs => hs.congr rfl rfl
  · exact preserves_pure _

/-- An operation on the heap tells of nothing but nodes. -/
theorem preserves_onHeap (op : HeapM Nat α) : Preserves (Told xs) (onHeap op) := by
  intro s hs
  unfold Leaves
  cases hrun : op.run s.heap with
  | ok a heap =>
    rw [run_onHeap hrun]
    exact (preserves_settle.bind fun _ => preserves_pure a) { s with heap } (hs.congr rfl rfl)
  | error cause heap =>
    rw [run_onHeap_of_run_eq_error hrun]
    exact (preserves_settle.bind fun _ => preserves_throw _) { s with heap } (hs.congr rfl rfl)

theorem preserves_insertNode (id : UInt32) (live : LiveNode) :
    Preserves (Told xs) (insertNode id live) := by
  refine (preserves_readHeap _).bind fun _ => (preserves_log ⟨rfl, rfl, rfl⟩).bind fun _ =>
    preserves_get.bind fun _ => preserves_modify_bind (fun _ => ⟨rfl, rfl⟩) ?_
  split
  · exact preserves_onHeap _
  · exact preserves_pure _

theorem preserves_newBuffer (limit : Nat) (id : UInt32) (length : UInt16) (fill : UInt8) :
    Preserves (Told xs) ((Op.newBuffer id length fill).perform limit) := by
  refine (preserves_exceeds _ _).bind fun refused => ?_
  split
  · exact preserves_pure _
  · exact (preserves_onHeap _).bind fun _ => (preserves_kindOf _).bind fun _ =>
      (preserves_ensure _ _).bind fun _ => (preserves_insertNode _ _).bind fun _ => preserves_pure _

theorem preserves_newExternal (limit : Nat) (id : UInt32) (length : UInt16) (fill : UInt8) :
    Preserves (Told xs) ((Op.newExternal id length fill).perform limit) := by
  refine (preserves_exceeds _ _).bind fun refused => ?_
  split
  · exact preserves_pure _
  · refine (preserves_newKey fun _ _ hs => hs.congr rfl rfl).bind fun key =>
      (preserves_onHeap _).bind fun _ => (preserves_kindOf _).bind fun _ => ?_
    exact (preserves_ensure _ _).bind fun _ => preserves_modify_bind (fun _ => ⟨rfl, rfl⟩) <|
      (preserves_insertNode _ _).bind fun _ => preserves_pure _

theorem preserves_subRange (limit : Nat) (id src : UInt32) (pos length : UInt16) :
    Preserves (Told xs) ((Op.subRange id src pos length).perform limit) := by
  refine preserves_get.bind fun s => ?_
  split
  · exact preserves_pure _
  · show Preserves _ (if _ then _ else _)
    split
    · exact preserves_pure _
    · exact (preserves_onHeap _).bind fun _ => (preserves_orFail _).bind fun _ =>
        (preserves_checkPart _ _ _).bind fun _ => (preserves_insertNode _ _).bind fun _ =>
          preserves_pure _

theorem preserves_cloneNode (limit : Nat) (id src : UInt32) :
    Preserves (Told xs) ((Op.cloneNode id src).perform limit) := by
  refine preserves_get.bind fun s => ?_
  split
  · exact preserves_pure _
  · exact (preserves_onHeap _).bind fun _ => (preserves_insertNode _ _).bind fun _ => preserves_pure _

theorem preserves_dropNode (limit : Nat) (id : UInt32) :
    Preserves (Told xs) ((Op.dropNode id).perform limit) := by
  refine preserves_get.bind fun s => ?_
  split
  · exact preserves_modify_bind (fun _ => ⟨rfl, rfl⟩) <|
      (preserves_onHeap _).bind fun _ => preserves_pure _
  · exact preserves_pure _

theorem preserves_append (limit : Nat) (id : UInt32) (length fill : UInt8) :
    Preserves (Told xs) ((Op.append id length fill).perform limit) := by
  refine preserves_get.bind fun s => ?_
  split
  · exact preserves_pure _
  · refine preserves_get.bind fun _ => (preserves_readHeap _).bind fun n =>
      (preserves_ensure _ _).bind fun _ => (preserves_orFail _).bind fun capacity => ?_
    refine room_elim (motive := Preserves _) ?_
    refine (preserves_orFail _).bind fun room => (preserves_onHeap _).bind fun count => ?_
    exact (preserves_ensure _ _).bind fun _ => (preserves_orFail _).bind fun _ =>
      preserves_modify_bind (fun _ => ⟨rfl, rfl⟩) (preserves_pure _)

theorem preserves_checkReleases : Preserves (Told xs) checkReleases := by
  refine preserves_get.bind fun _ => preserves_get.bind fun _ =>
    preserves_modify_bind (fun _ => ⟨rfl, rfl⟩) ?_
  refine (preserves_forM (fun key => ?_) _).bind fun _ =>
    preserves_get.bind fun _ => preserves_forM (fun _ => preserves_ensure _ _) _
  exact (preserves_log ⟨rfl, rfl, rfl⟩).bind fun _ => preserves_get.bind fun _ =>
    (preserves_ensure _ _).bind fun _ =>
      preserves_modify_bind (fun _ => ⟨rfl, rfl⟩) (preserves_ensure _ _)

/-! ## The ends of handles and snapshots -/

/-- A handle that is deleted now is not among those that ever waited. -/
theorem not_mem_deferrals (ht : Told xs s) (hk : Kept s.queue xs [] c) (hh : h ∈ c.handles) :
    h ∉ deferrals s.log.toList := by
  rw [ht.accounts.waiting, List.mem_append, not_or]
  constructor
  · intro hover
    obtain ⟨payload, -, -, hcell⟩ := hk.stock.holds_of_live hh
    rw [(ht.gone h hover).2] at hcell
    cases hcell
  · intro hwaits
    exact hk.not_mem_events_of_live hh (hk.timeline.sub.subset (List.mem_filter.1 hwaits).1)

theorem ends_endHandle (ht : Told xs s) (hk : Kept s.queue xs [] c) (hh : h ∈ c.handles) :
    Ends (endHandle h) s fun _ t => ∃ ys, Told ys t := by
  obtain ⟨payload, hholds⟩ := hk.stock.holds_of_live hh
  have hnew : h ∉ xs := fun hmem =>
    hk.not_mem_events_of_live hh (hk.timeline.sub.subset hmem)
  obtain ⟨q, hrun, ho, hnumber, hsize, -, hstays⟩ := Queue.run_delete ht.orderly hholds hnew
  unfold endHandle
  rw [ends_bind_of_run_eq_ok (run_onQueue hrun)]
  by_cases hnil : xs = []
  · rw [if_pos hnil] at ho ⊢
    rw [← hnil] at ho
    exact ⟨xs, ht.quiet ho rfl hnumber (Nat.le_of_eq hsize.symm) fun k _ => hstays k⟩
  · rw [if_neg hnil] at ho ⊢
    refine ⟨xs ++ [h], ht.advance ho Array.toList_push
      (ht.accounts.defers (hk.isHandle_of_live hh) (ht.not_mem_deferrals hk hh)) hnumber
      (Nat.le_of_eq hsize.symm) (fun k _ => hstays k) fun h hh => absurd hh List.not_mem_nil⟩

/-- The handles whose wait is over are written down one after the other. -/
theorem ends_writeReclaimed (taken : List (EntryId × Nat)) (s : State) :
    Ends (taken.forM fun p => do log (.store (.reclaiming p.1)); dropPayload p.2) s fun _ t =>
      t.queue = s.queue ∧
      t.log.toList = s.log.toList ++ taken.map fun p => Line.store (.reclaiming p.1) := by
  refine (ends_forM (fun rest t => t.queue = s.queue ∧
    (t.log.toList ++ rest.map fun p => Line.store (.reclaiming p.1)) =
      s.log.toList ++ taken.map fun p => Line.store (.reclaiming p.1)) ⟨rfl, rfl⟩ ?_).mono ?_
  · intro p rest t ht
    refine ⟨ht.1, ?_⟩
    rw [← ht.2]
    show (t.log.push (.store (.reclaiming p.1))).toList ++ _ = _
    rw [Array.toList_push, List.append_assoc]
    rfl
  · intro _ t ht
    rw [← ht.2, List.map_nil, List.append_nil]
    exact ⟨ht.1, rfl⟩

theorem ends_endSnapshot (ht : Told xs s) (hk : Kept s.queue xs [] c) (he : e ∈ c.snapshots)
    (hword : c.deleted.length < wordBound) :
    Ends (endSnapshot e) s fun _ t => ∃ ys, Told ys t := by
  obtain ⟨hin, hsnap⟩ := (hk.live e).1 he
  have hends := (hk.ends_dropSnapshot he hword).also
    (Queue.leaves_dropSnapshot ht.orderly hin hsnap)
  unfold endSnapshot
  apply (ends_onQueue hends).bind
  intro taken t hafter
  obtain ⟨q, ⟨-, ho, hnumber, hsize, -, htaken, hgone, hstays⟩, rfl⟩ := hafter
  have hlength : taken.length = (leaving xs e).length := by rw [← htaken, List.length_map]
  rw [ends_bind_log, hlength]
  apply (ends_writeReclaimed taken _).mono
  intro _ t hafter
  obtain ⟨hqueue, hlog⟩ := hafter
  have hlines : t.log.toList = s.log.toList ++ dropLines e (leaving xs e) := by
    rw [hlog, Array.toList_push, List.append_assoc, dropLines, ← htaken, List.map_map]
    rfl
  obtain rfl : t.queue = q := hqueue
  refine ⟨staying xs e, ht.advance ho hlines (ht.accounts.drops hin hsnap) hnumber
    (Nat.le_of_eq hsize.symm) (fun k _ => hstays k) fun h hh => ?_⟩
  rw [reclaimings_dropLines] at hh
  have hknown := (ht.orderly.stands ((leaving_sublist xs e).subset hh)).known
  exact ⟨⟨hknown.1.trans hnumber.symm, by rw [hsize]; exact hknown.2⟩, hgone h hh⟩

/-! ## What comes into the queue -/

theorem opens (ht : Told xs s) (hrun : Queue.openSnapshot.run s.queue = .ok e q) :
    Told (xs ++ [e]) { s with queue := q, log := s.log.push (.store (.snapshotMade e)) } := by
  obtain ⟨q', hrun', ho, hsame, -⟩ := Queue.run_openSnapshot ht.orderly
  rw [hrun'] at hrun
  obtain ⟨rfl, rfl⟩ := EStateM.Result.ok.inj hrun
  refine ht.advance ho Array.toList_push (ht.accounts.opens rfl) hsame.number ?_ ?_ fun h hh =>
    absurd hh List.not_mem_nil
  · show s.queue.cells.size ≤ q'.cells.size
    rw [hsame.size, Arena.size_push]
    exact Nat.le_succ _
  · intro k hk hgone
    apply hsame.stays
    rwa [cell?_create_of_ne s.queue _ (Nat.ne_of_lt hk)]

theorem makes (ht : Told xs s) (hrun : (Queue.newHandle key).run s.queue = .ok h q) :
    Told xs { s with queue := q } := by
  obtain ⟨-, rfl⟩ := EStateM.Result.ok.inj hrun
  refine ht.quiet (ht.orderly.push _) rfl rfl ?_ ?_
  · rw [Arena.size_push]
    exact Nat.le_succ _
  · intro k hk hgone
    rwa [cell?_create_of_ne s.queue _ (Nat.ne_of_lt hk)]

/-! ## Operations -/

/-- The trial knows the chain that its log accounts for. -/
theorem noted (ht : Told xs s) (hs : Sound n s) :
    ∃ c, Noted s s.snapshots.values s.handles.values xs c := by
  obtain ⟨ys, c, hq⟩ := hs.entries
  obtain rfl := hq.kept.timeline.orderly.unique ht.orderly
  exact ⟨c, hq⟩

theorem ends_retireHandle (ht : Told xs s) (hk : Kept s.queue xs [] c) (hh : h ∈ c.handles)
    (hclock : s.clock + 1 < wordBound) : Ends (retireHandle h) s fun _ t => ∃ ys, Told ys t := by
  obtain ⟨key, hholds⟩ := hk.stock.holds_of_live hh
  rw [Ends, Leaves, run_retireHandle hholds hclock]
  exact ends_endHandle (ht.congr rfl rfl) hk hh

theorem ends_newSnapshot (ht : Told xs s) (hs : Sound n s) (hroom : n + 1 < RefCount.bound)
    (limit : Nat) (id : UInt32) :
    Ends ((Op.newSnapshot id).perform limit) s fun _ t => ∃ ys, Told ys t := by
  have hwords : RefCount.bound ≤ wordBound := by decide
  have hclock := hs.clock
  obtain ⟨c, hq⟩ := ht.noted hs
  obtain ⟨e, q, hrun, hk⟩ := hq.kept.opens
  have ht' := ht.opens hrun
  unfold Op.perform
  rw [ends_bind_of_run_eq_ok (run_tick (by omega)),
    ends_bind_of_run_eq_ok (run_onQueue (s := { s with clock := s.clock + 1 }) hrun), ends_bind_log,
    ends_bind_get, ends_bind_modify]
  cases hold : s.snapshots.get? id with
  | none => exact ⟨xs ++ [e], ht'.congr rfl rfl⟩
  | some old =>
    have hin : old ∈ s.snapshots.values := List.mem_map_of_mem (Table.mem_of_get?_eq_some hold)
    have hlive := List.mem_cons_of_mem e (hq.snapshots.mem_iff.1 (List.mem_map_of_mem hin))
    have hword := Nat.lt_of_le_of_lt (hq.opens hk #[]).length_deleted_le
      (show s.clock + 1 < wordBound by omega)
    exact (ends_endSnapshot (s := { s with
        queue := q
        clock := s.clock + 1
        snapshots := s.snapshots.insert id (e, s.clock + 1)
        log := s.log.push (.store (.snapshotMade e)) })
      (ht'.congr rfl rfl) hk hlive hword).bind fun _ t ht => ht

theorem ends_dropSnapshot (ht : Told xs s) (hs : Sound n s) (hroom : n + 1 < RefCount.bound)
    (limit : Nat) (id : UInt32) :
    Ends ((Op.dropSnapshot id).perform limit) s fun _ t => ∃ ys, Told ys t := by
  have hwords : RefCount.bound ≤ wordBound := by decide
  have hclock := hs.clock
  obtain ⟨c, hq⟩ := ht.noted hs
  unfold Op.perform
  rw [ends_bind_get]
  cases hold : s.snapshots.get? id with
  | none => exact ⟨xs, ht⟩
  | some old =>
    have hin : old ∈ s.snapshots.values := List.mem_map_of_mem (Table.mem_of_get?_eq_some hold)
    have hlive := hq.snapshots.mem_iff.1 (List.mem_map_of_mem hin)
    have hword := Nat.lt_of_le_of_lt hq.length_deleted_le (show s.clock < wordBound by omega)
    show Ends (modify _ >>= _) s _
    rw [ends_bind_modify]
    exact (ends_endSnapshot (s := { s with snapshots := s.snapshots.erase id })
      (ht.congr rfl rfl) hq.kept hlive hword).bind fun _ t ht => ht

theorem leaves_newHandle (ht : Told xs s) (hs : Sound n s) (hroom : n + 1 < RefCount.bound)
    (limit : Nat) (id : UInt32) :
    Leaves ((Op.newHandle id).perform limit) s (fun _ t => ∃ ys, Told ys t) fun _ _ => True := by
  have hwords : RefCount.bound ≤ wordBound := by decide
  have hkeys : RefCount.bound ≤ keyBound := by decide
  have hclock := hs.clock
  have hlast := hs.lastKey
  obtain ⟨c, hq⟩ := ht.noted hs
  obtain ⟨h, q, hrun, hk⟩ := hq.kept.makes (s.lastKey + 1)
  have ht' := ht.makes hrun
  unfold Op.perform
  rw [leaves_bind_of_run_eq_ok (run_newKey (by omega)),
    leaves_bind_of_run_eq_ok (run_onQueue (s := { s with lastKey := s.lastKey + 1 }) hrun),
    leaves_bind_of_run_eq_ok (run_isEmpty _)]
  refine leaves_ensure_bind ?_
  rw [leaves_bind_of_run_eq_ok (EStateM.run_get _), leaves_bind_of_run_eq_ok (EStateM.run_modify _ _)]
  cases hold : s.handles.get? id with
  | none => exact ⟨xs, ht'.congr rfl rfl⟩
  | some old =>
    have hin : old ∈ s.handles.values := List.mem_map_of_mem (Table.mem_of_get?_eq_some hold)
    have hlive := List.mem_cons_of_mem h (hq.handles.mem_iff.1 hin)
    exact Ends.leaves ((ends_retireHandle
      (s := { s with queue := q, lastKey := s.lastKey + 1, handles := s.handles.insert id h })
      (ht'.congr rfl rfl) hk hlive (show s.clock + 1 < wordBound by omega)).bind fun _ t ht => ht)

theorem ends_deleteHandle (ht : Told xs s) (hs : Sound n s) (hroom : n + 1 < RefCount.bound)
    (limit : Nat) (id : UInt32) :
    Ends ((Op.deleteHandle id).perform limit) s fun _ t => ∃ ys, Told ys t := by
  have hwords : RefCount.bound ≤ wordBound := by decide
  have hclock := hs.clock
  obtain ⟨c, hq⟩ := ht.noted hs
  unfold Op.perform
  rw [ends_bind_get]
  cases hold : s.handles.get? id with
  | none => exact ⟨xs, ht⟩
  | some old =>
    have hin : old ∈ s.handles.values := List.mem_map_of_mem (Table.mem_of_get?_eq_some hold)
    have hlive := hq.handles.mem_iff.1 hin
    show Ends (modify _ >>= _) s _
    rw [ends_bind_modify]
    exact (ends_retireHandle (s := { s with handles := s.handles.erase id })
      (ht.congr rfl rfl) hq.kept hlive (show s.clock + 1 < wordBound by omega)).bind fun _ t ht => ht

theorem leaves_perform (ht : Told xs s) (hs : Sound n s) (hroom : n + 1 < RefCount.bound)
    (limit : Nat) (op : Op) :
    Leaves (op.perform limit) s (fun _ t => ∃ ys, Told ys t) fun _ _ => True := by
  have hkept : Preserves (Told xs) (op.perform limit) →
      Leaves (op.perform limit) s (fun _ t => ∃ ys, Told ys t) fun _ _ => True := fun hop =>
    (hop s ht).mono (fun _ _ ht => ⟨xs, ht⟩) fun _ _ _ => trivial
  cases op with
  | newBuffer id length fill => exact hkept (preserves_newBuffer limit id length fill)
  | newExternal id length fill => exact hkept (preserves_newExternal limit id length fill)
  | subRange id src pos length => exact hkept (preserves_subRange limit id src pos length)
  | cloneNode id src => exact hkept (preserves_cloneNode limit id src)
  | dropNode id => exact hkept (preserves_dropNode limit id)
  | append id length fill => exact hkept (preserves_append limit id length fill)
  | newSnapshot id => exact (ht.ends_newSnapshot hs hroom limit id).leaves
  | dropSnapshot id => exact (ht.ends_dropSnapshot hs hroom limit id).leaves
  | newHandle id => exact ht.leaves_newHandle hs hroom limit id
  | deleteHandle id => exact (ht.ends_deleteHandle hs hroom limit id).leaves

/-! ## Runs -/

/-- The checks after an operation leave the queue alone. -/
theorem ends_checks (ht : Told xs s) (hs : Sound n s) (hroom : n < RefCount.bound) :
    Ends (do checkNodes; checkReleases; checkQueue) s fun _ t => Told xs t := by
  obtain ⟨c, hq⟩ := ht.noted hs
  rw [ends_bind_of_run_eq_ok (hs.nodes.run_checkNodes (Nat.lt_of_le_of_lt hs.fewNodes hroom))]
  apply (hs.nodes.ends_checkReleases.also (preserves_checkReleases s ht)).bind
  intro _ t hafter
  obtain ⟨⟨⟨unreleased, log, rfl⟩, -⟩, ht⟩ := hafter
  have hq' : Noted { s with unreleased, log, released := [] } s.snapshots.values s.handles.values xs c :=
    { hq with }
  apply hq'.ends_checkQueue.mono
  intro _ t hafter
  obtain ⟨deleted, rfl, -⟩ := hafter
  exact ht.congr rfl rfl

theorem leaves_step (ht : Told xs s) (hs : Settled n s) (hroom : n + 1 < RefCount.bound) (limit : Nat)
    (op : Op) : Leaves (step limit op) s (fun _ t => ∃ ys, Told ys t) fun _ _ => True := by
  have hplain : (Line.running op).IsPlain := ⟨rfl, rfl, rfl⟩
  have hs' := (hs.withLog (s.log.push (.running op))).sound
  unfold step
  rw [leaves_bind_log]
  refine ((hs'.ends_perform hroom limit op).also
    ((ht.push hplain).leaves_perform hs' hroom limit op)).leaves.bind fun did t hafter => ?_
  obtain ⟨⟨hsound, -⟩, ys, ht⟩ := hafter
  cases did with
  | true => exact Ends.leaves ((ht.ends_checks hsound hroom).mono fun _ _ ht => ⟨ys, ht⟩)
  | false => exact ⟨ys, ht⟩

theorem ends_steps (ht : Told xs s) (hs : Settled n s) {ops : List Op}
    (hroom : n + ops.length < RefCount.bound) (limit : Nat) :
    Ends (ops.forM (step limit)) s fun _ t => Settled (n + ops.length) t ∧ ∃ ys, Told ys t := by
  refine (ends_forM (fun rest t => ∃ m, m + rest.length = n + ops.length ∧ Settled m t ∧
    ∃ ys, Told ys t) ⟨n, rfl, hs, xs, ht⟩ ?_).mono ?_
  · intro op rest t hafter
    obtain ⟨m, hm, hs, ys, ht⟩ := hafter
    rw [List.length_cons] at hm
    exact ((hs.ends_step (by omega) limit op).also (ht.leaves_step hs (by omega) limit op)).mono
      fun _ _ hafter => ⟨m + 1, by omega, hafter⟩
  · intro _ t hafter
    obtain ⟨m, hm, ht⟩ := hafter
    rwa [List.length_nil, Nat.add_zero, ← hm] at *

/-! ## The end -/

theorem ends_endHandles (ht : Told xs s) (hk : Kept s.queue xs [] c) (hhandles : handles.Perm c.handles) :
    Ends (handles.forM endHandle) s fun _ t => ∃ ys, Told ys t := by
  refine (ends_forM (fun rest t => ∃ ys c', Kept t.queue ys [] c' ∧ rest.Perm c'.handles ∧ Told ys t)
    ⟨xs, c, hk, hhandles, ht⟩ ?_).mono ?_
  · intro h rest t hafter
    obtain ⟨ys, c', hk, hrest, ht⟩ := hafter
    have hlive : h ∈ c'.handles := hrest.mem_iff.1 List.mem_cons_self
    refine ((Trial.ends_endHandle hk hlive).also (ht.ends_endHandle hk hlive)).mono
      fun _ t hafter => ?_
    obtain ⟨⟨queue, taken, log, zs, rfl, hk'⟩, zs', ht'⟩ := hafter
    obtain rfl := hk'.timeline.orderly.unique ht'.orderly
    have herase := hrest.erase h
    rw [List.erase_cons_head] at herase
    exact ⟨zs, _, hk', herase, ht'⟩
  · intro _ t hafter
    obtain ⟨ys, -, -, -, ht⟩ := hafter
    exact ⟨ys, ht⟩

theorem ends_endSnapshots {snaps : List (EntryId × Nat)} (ht : Told xs s) (hk : Kept s.queue xs [] c)
    (hsnaps : (snaps.map (·.1)).Perm c.snapshots) (hword : c.events.length < wordBound) :
    Ends (snaps.forM fun p => endSnapshot p.1) s fun _ t => ∃ ys, Told ys t := by
  refine (ends_forM (fun rest t => ∃ ys c', Kept t.queue ys [] c' ∧
    (rest.map (·.1)).Perm c'.snapshots ∧ c'.events = c.events ∧ Told ys t)
    ⟨xs, c, hk, hsnaps, rfl, ht⟩ ?_).mono ?_
  · intro p rest t hafter
    obtain ⟨ys, c', hk, hrest, hevents, ht⟩ := hafter
    have hlive : p.1 ∈ c'.snapshots := hrest.mem_iff.1 List.mem_cons_self
    have hdeleted : c'.deleted.length < wordBound := by
      rw [← hevents] at hword
      exact Nat.lt_of_le_of_lt (List.length_filter_le _ _) hword
    refine ((Trial.ends_endSnapshot hk hlive hdeleted).also
      (ht.ends_endSnapshot hk hlive hdeleted)).mono fun _ t hafter => ?_
    obtain ⟨⟨queue, taken, log, zs, rfl, hk'⟩, zs', ht'⟩ := hafter
    obtain rfl := hk'.timeline.orderly.unique ht'.orderly
    have herase := hrest.erase p.1
    rw [List.map_cons, List.erase_cons_head] at herase
    exact ⟨zs, _, hk', herase, hevents, ht'⟩
  · intro _ t hafter
    obtain ⟨ys, -, -, -, -, ht⟩ := hafter
    exact ⟨ys, ht⟩

/-- Whoever gives up everything leaves nothing waiting. -/
theorem leaves_tearDown (ht : Told xs s) (hs : Settled n s) (hroom : n < RefCount.bound) :
    Leaves tearDown s (fun _ t => Told [] t) fun _ _ => True := by
  have hsound := hs.sound
  obtain ⟨c, hq⟩ := ht.noted hsound
  have hevents := hsound.events_lt hroom hq
  unfold tearDown
  rw [leaves_bind_of_run_eq_ok (EStateM.run_get _), leaves_bind_of_run_eq_ok (EStateM.run_modify _ _)]
  have hn : Nodes { s with nodes := .empty, handles := .empty, snapshots := .empty } s.nodes.values :=
    { hsound.nodes with }
  have ht : Told xs { s with nodes := .empty, handles := .empty, snapshots := .empty } := ht.congr rfl rfl
  refine ((hn.ends_releaseAll (Nat.lt_of_le_of_lt hsound.fewNodes hroom)).also
    (preserves_forM (fun _ => preserves_onHeap _) _ _ ht)).leaves.bind fun _ t hafter => ?_
  obtain ⟨⟨⟨heap, released, log, rfl⟩, -⟩, ht⟩ := hafter
  refine ((Trial.ends_endHandles (s := { s with
    nodes := .empty, handles := .empty, snapshots := .empty, heap, released, log })
    hq.kept hq.handles).also (ht.ends_endHandles hq.kept hq.handles)).leaves.bind fun _ t hafter => ?_
  obtain ⟨⟨queue, dropped, log, ys, c', rfl, hk, hsnapshots, hlength⟩, ys', ht⟩ := hafter
  obtain rfl := hk.timeline.orderly.unique ht.orderly
  have hsnaps := hsnapshots ▸ hq.snapshots
  refine ((Trial.ends_endSnapshots hk hsnaps (by omega)).also
    (ht.ends_endSnapshots hk hsnaps (by omega))).leaves.bind fun _ t hafter => ?_
  obtain ⟨⟨queue, dropped, log, c', rfl, hk⟩, zs, ht⟩ := hafter
  obtain rfl := hk.timeline.orderly.unique ht.orderly
  refine Leaves.bind ((preserves_checkReleases _ ht).mono (fun _ _ ht => ht) fun _ _ _ => trivial)
    fun _ t ht => ?_
  rw [leaves_bind_of_run_eq_ok (EStateM.run_get _)]
  refine leaves_ensure_bind ?_
  rw [leaves_bind_of_run_eq_ok (run_isEmpty _)]
  refine leaves_ensure_bind ?_
  rw [leaves_bind_of_run_eq_ok (run_onQueue (Queue.run_readStats ht.orderly.free))]
  refine leaves_ensure_bind ?_
  rw [leaves_bind_of_run_eq_ok (EStateM.run_get _)]
  exact (preserves_orFail _ _ ht).mono (fun _ _ ht => ht) fun _ _ _ => trivial

end Told

theorem told_started : Told [] { State.initial with log := #[.started] } where
  orderly := Deferral.orderly_new 0 .checking
  accounts := accounts_nil.plain (show Line.started.IsPlain from ⟨rfl, rfl, rfl⟩) rfl
  gone := fun _ hh => absurd hh List.not_mem_nil

/-! ## Whole trials -/

/-- What a whole log says about the handles that had to wait. -/
structure InTurn (lines : List Line) : Prop where
  /-- All of them are destroyed, in the order in which they were deleted. -/
  order : reclaimings lines = deferrals lines
  /-- None of them is deleted twice. -/
  once : (deferrals lines).Nodup
  /-- So it was at every moment, as far as the waits were over. -/
  sofar : ∀ before, before <+: lines → reclaimings before <+: deferrals before
  /-- Whatever is destroyed was deleted before. -/
  later : ∀ before h rest, lines = before ++ .store (.reclaiming h) :: rest → h ∈ deferrals before
  /-- With a snapshot go as many handles as it announces. -/
  announced : ∀ before e count rest, lines = before ++ .store (.snapshotDropped e count) :: rest →
    (rest.takeWhile Line.reclaims).length = count

theorem Accounts.inTurn {lines : List Line} (ha : Accounts lines []) : InTurn lines where
  order := by rw [ha.waiting, List.filter_nil, List.append_nil]
  once := ha.once
  sofar := ha.inOrder
  later := fun _ _ _ hlines => ha.inOrder.mem_deferrals hlines
  announced := ha.announces

/-- **The handles that had to wait are destroyed in the order in which they were deleted, each of them
once, and every drop of a snapshot announces how many of them go with it.** -/
theorem reclaimed_in_order (limit : Nat) (ops : List Op) (hshort : ops.length < RefCount.bound) :
    InTurn (run limit ops).log := by
  have hplay : Ends (play limit ops) State.initial fun _ t => Told [] t := by
    unfold play
    rw [ends_bind_log]
    apply (told_started.ends_steps settled_started (by omega) limit).bind
    intro _ t hafter
    obtain ⟨hs, ys, ht⟩ := hafter
    exact ((hs.ends_tearDown (by omega)).also (ht.leaves_tearDown hs (by omega))).mono
      fun _ _ hafter => hafter.2
  obtain ⟨_, s, hrun, ht⟩ := hplay.run_eq_ok
  rw [run, hrun]
  exact ht.accounts.inTurn

/-- A trial with two snapshots that overlap, and with two handles that wait for both. -/
def overlapping : List Op :=
  [.newHandle 1, .newHandle 2, .newSnapshot 1, .newSnapshot 2, .deleteHandle 2, .deleteHandle 1,
    .dropSnapshot 1, .newSnapshot 2]

theorem reclaimed_in_order_overlapping :
    overlapping.length < RefCount.bound ∧ (deferrals (run 100 overlapping).log).length = 2 ∧
      InTurn (run 100 overlapping).log :=
  ⟨by decide, by decide +kernel, reclaimed_in_order 100 overlapping (by decide)⟩

end RopeStore.Trial
