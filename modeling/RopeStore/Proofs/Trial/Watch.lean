import Mathlib.Data.List.Basic
import Mathlib.Data.List.Nodup
import Mathlib.Data.List.Perm.Basic
import RopeStore.Proofs.Trial.Entries

/-!
# What a trial sees of its queue

A deleted handle is guarded if a snapshot lives that was made before the deletion. The trial finds that
out from the times, and the queue from its chain.

* `Noted.guarded_iff` : the payloads that are guarded are those that were not dropped;
* `Noted.confirms` : a check forgets the deleted handles whose payloads it saw to be dropped;
* `Noted.deleted_eq` : after a check, the deleted handles are those of the chain, in the same order;
* `State.Sees s e madeAt` : the snapshot `e` sees what was deleted after the time `madeAt`;
* `Noted.ends_checkQueue` : the checks of the queue hold.
-/

namespace RopeStore.Trial
open Deferral (EntryId Chronicle Kept Queue Holds isHandle filter_mem_of_sublist)
variable {s : State} {snaps : List (EntryId × Nat)} {handles xs : List EntryId} {c : Chronicle Nat}
  {d : DeletedHandle} {p : EntryId × Nat}

/-- The snapshot `e` sees the handles that were deleted after the time `madeAt`, with their payloads,
and no others. -/
structure State.Sees (s : State) (e : EntryId) (madeAt : Nat) : Prop where
  payloads : (Queue.inspectDeleted e fun key => some key).run s.queue =
    .ok ((s.deleted.filter fun d => madeAt < d.deletedAt).map (·.key)) s.queue
  handles : (Queue.safeHandles e).run s.queue =
    .ok ((s.deleted.filter fun d => madeAt < d.deletedAt).map (·.id)) s.queue
  verdicts : ∀ d ∈ s.deleted, (Queue.isSafeToInspect e (some d.id)).run s.queue =
    .ok (decide (madeAt < d.deletedAt)) s.queue

/-! ## Lists -/

/-- The oldest of some snapshots is older than a time if one of them is. -/
theorem any_min?_lt {t : Nat} :
    (snaps.map (·.2)).min?.any (· < t) = true ↔ ∃ p ∈ snaps, p.2 < t := by
  cases hmin : (snaps.map (·.2)).min? with
  | none =>
    rw [List.min?_eq_none_iff, List.map_eq_nil_iff] at hmin
    simp [hmin]
  | some m =>
    obtain ⟨hmem, hle⟩ := List.min?_eq_some_iff.1 hmin
    rw [Option.any_some, decide_eq_true_eq]
    constructor
    · intro hlt
      obtain ⟨p, hp, rfl⟩ := List.mem_map.1 hmem
      exact ⟨p, hp, hlt⟩
    · intro h
      obtain ⟨p, hp, hlt⟩ := h
      exact Nat.lt_of_le_of_lt (hle _ (List.mem_map_of_mem hp)) hlt

namespace Noted

/-! ## Guarded payloads -/

theorem isWatched_iff (hn : Noted s snaps handles xs c) (hd : d ∈ s.deleted) :
    c.IsWatched d.id ↔ ∃ p ∈ snaps, p.2 < d.deletedAt := by
  have hevent := hn.mem_events_of_deleted hd
  have htime := hn.deletedAt d hd
  have hnodup := hn.kept.timeline.nodup
  constructor
  · intro hw
    obtain ⟨e, he, hbefore⟩ := hw
    obtain ⟨p, hp, rfl⟩ := List.mem_map.1 (hn.snapshots.mem_iff.2 he)
    refine ⟨p, hp, ?_⟩
    rw [hn.madeAt p hp, htime]
    exact (Chronicle.before_iff_time_lt hnodup hevent).1 hbefore
  · intro hguarded
    obtain ⟨p, hp, hlt⟩ := hguarded
    rw [hn.madeAt p hp, htime] at hlt
    refine ⟨p.1, hn.snapshots.mem_iff.1 (List.mem_map_of_mem hp), ?_⟩
    exact (Chronicle.before_iff_time_lt hnodup hevent).2 hlt

theorem isDropped_iff (hn : Noted s snaps handles xs c) (hd : d ∈ s.deleted) :
    c.IsDropped d.id ↔ d.key ∈ s.dropped := by
  obtain ⟨old, new, hdropped, hnew, hwaiting⟩ := hn.waiting
  have hmade := hn.owned d hd
  have hgone : ∀ p ∈ old ++ new, p ∈ c.made := by
    rw [← hdropped]
    exact fun p hp => (hn.kept.stock.gone p hp).1
  have hstays : d.id ∉ old.map (·.1) := by
    have hmem := List.mem_map_of_mem (f := (·.id)) hd
    rw [hwaiting, List.mem_filter, decide_eq_true_eq] at hmem
    exact hmem.2
  unfold Chronicle.IsDropped
  rw [hdropped, hnew, List.map_append, List.mem_append, or_iff_right hstays]
  constructor
  · intro hmem
    obtain ⟨p, hp, hid⟩ := List.mem_map.1 hmem
    have hp' := hgone p (List.mem_append_right _ hp)
    have heq := List.inj_on_of_nodup_map hn.kept.stock.keys hp' hmade hid
    rw [heq] at hp
    exact List.mem_map_of_mem (f := (·.2)) hp
  · intro hmem
    obtain ⟨p, hp, hkey⟩ := List.mem_map.1 hmem
    have hp' := hgone p (List.mem_append_right _ hp)
    have heq := List.inj_on_of_nodup_map hn.keys hp' hmade hkey
    rw [heq] at hp
    exact List.mem_map_of_mem (f := (·.1)) hp

/-- **A payload stays exactly as long as it is guarded.** -/
theorem guarded_iff (hn : Noted s snaps handles xs c) (hd : d ∈ s.deleted) :
    (∃ p ∈ snaps, p.2 < d.deletedAt) ↔ d.key ∉ s.dropped := by
  have hdeleted := hn.mem_deleted hd
  rw [← hn.isWatched_iff hd, ← hn.isDropped_iff hd]
  constructor
  · exact hn.kept.undropped_of_watched hdeleted
  · exact fun hstays => hn.kept.watched_of_undropped hdeleted hstays List.not_mem_nil

theorem confirms (hn : Noted s snaps handles xs c) {guarded : DeletedHandle → Bool}
    (hguarded : ∀ d ∈ s.deleted, guarded d = true ↔ ∃ p ∈ snaps, p.2 < d.deletedAt) :
    Noted { s with dropped := [], deleted := s.deleted.filter guarded } snaps handles xs c where
  kept := hn.kept
  snapshots := hn.snapshots
  handles := hn.handles
  clock := hn.clock
  madeAt := hn.madeAt
  deletedAt := fun d hd => hn.deletedAt d (List.mem_filter.1 hd).1
  owned := fun d hd => hn.owned d (List.mem_filter.1 hd).1
  waiting := by
    refine ⟨c.dropped, [], (List.append_nil _).symm, rfl, ?_⟩
    obtain ⟨old, new, hdropped, -, hwaiting⟩ := hn.waiting
    have hstays : s.deleted.filter guarded = s.deleted.filter fun d => d.id ∉ c.dropped.map (·.1) := by
      apply List.filter_congr
      intro d hd
      rw [Bool.eq_iff_iff, decide_eq_true_eq, hguarded d hd, hn.guarded_iff hd, ← hn.isDropped_iff hd]
      rfl
    show (s.deleted.filter guarded).map (·.id) = _
    rw [hstays]
    refine (List.filter_map (f := DeletedHandle.id) (p := (· ∉ c.dropped.map (·.1)))).symm.trans ?_
    rw [hwaiting, List.filter_filter]
    apply List.filter_congr
    intro h _
    simp only [hdropped, List.map_append, List.mem_append, not_or, Bool.decide_and]
    cases decide (h ∉ old.map (·.1)) <;> simp
  keys := hn.keys
  known := hn.known

/-! ## After a check -/

section Clean
variable (hn : Noted s snaps handles xs c) (hclean : s.dropped = [])
include hn hclean

/-- **The deleted handles that are left are those of the chain, in the same order.** -/
theorem deleted_eq : s.deleted.map (·.id) = xs.filter isHandle := by
  obtain ⟨old, new, hdropped, hnew, hwaiting⟩ := hn.waiting
  rw [hclean] at hnew
  obtain rfl : new = [] := List.map_eq_nil_iff.1 hnew.symm
  rw [List.append_nil] at hdropped
  have hchain : c.events.filter (· ∈ xs) = xs :=
    filter_mem_of_sublist hn.kept.timeline.sub hn.kept.timeline.nodup
  rw [hwaiting, ← hdropped, Chronicle.deleted]
  conv_rhs => rw [← hchain]
  rw [List.filter_filter, List.filter_filter]
  apply List.filter_congr
  intro h hevent
  cases hkind : isHandle h with
  | false => simp
  | true =>
    have hiff := hn.kept.mem_chain_iff (Chronicle.mem_deleted.2 ⟨hevent, hkind⟩)
    rw [Bool.and_true, Bool.true_and, decide_eq_decide, hiff]
    rfl

theorem mem_chain_of_deleted (hd : d ∈ s.deleted) : d.id ∈ xs ∧ isHandle d.id = true := by
  have hmem := List.mem_map_of_mem (f := (·.id)) hd
  rw [hn.deleted_eq hclean] at hmem
  exact List.mem_filter.1 hmem

theorem holds_of_deleted (hd : d ∈ s.deleted) : Holds s.queue d.id d.key := by
  apply (hn.kept.stock.held _ (hn.owned d hd)).resolve_left
  intro hdropped
  have hgone := (hn.isDropped_iff hd).1 (List.mem_map_of_mem hdropped)
  rw [hclean] at hgone
  exact List.not_mem_nil hgone

/-- What was deleted after a snapshot was made comes behind it in the chain. -/
theorem lt_iff_before (hp : p ∈ snaps) (hd : d ∈ s.deleted) :
    p.2 < d.deletedAt ↔ [p.1, d.id].Sublist xs := by
  have hnodup := hn.kept.timeline.nodup
  have hin := ((hn.kept.live p.1).1 (hn.snapshots.mem_iff.1 (List.mem_map_of_mem hp))).1
  rw [hn.madeAt p hp, hn.deletedAt d hd,
    ← Chronicle.before_iff_time_lt hnodup (hn.mem_events_of_deleted hd),
    Deferral.before_iff_of_sublist hn.kept.timeline.sub hnodup hin
      (hn.mem_chain_of_deleted hclean hd).1]

/-- **A snapshot sees what was deleted after it was made.** -/
theorem sees (hp : p ∈ snaps) : s.Sees p.1 p.2 := by
  have ho := hn.kept.timeline.orderly
  obtain ⟨hin, hsnap⟩ := (hn.kept.live p.1).1 (hn.snapshots.mem_iff.1 (List.mem_map_of_mem hp))
  obtain ⟨as, ys, hsplit⟩ := List.append_of_mem hin
  have hordered := ho
  rw [hsplit] at hordered
  have hafter : (s.deleted.filter fun d => p.2 < d.deletedAt).map (·.id) = ys.filter isHandle := by
    have hys : ys.Sublist xs := by
      rw [hsplit]
      exact (List.sublist_cons_self p.1 ys).trans (List.sublist_append_right as _)
    have hbehind : (s.deleted.filter fun d => p.2 < d.deletedAt) =
        s.deleted.filter fun d => d.id ∈ ys := by
      apply List.filter_congr
      intro d hd
      rw [decide_eq_decide, hn.lt_iff_before hclean hp hd, hsplit,
        Deferral.before_iff_mem hordered.nodup]
    rw [hbehind]
    refine (List.filter_map (f := DeletedHandle.id) (p := (· ∈ ys))).symm.trans ?_
    rw [hn.deleted_eq hclean, List.filter_filter]
    conv_rhs => rw [← filter_mem_of_sublist hys ho.nodup, List.filter_filter]
    refine List.filter_congr fun h _ => Bool.and_comm _ _
  refine ⟨?_, ?_, ?_⟩
  · rw [Queue.run_inspectDeleted hordered, ← hafter, List.filterMap_map, ← List.filterMap_eq_map]
    congr 1
    apply List.filterMap_congr
    intro d hd
    have hholds := hn.holds_of_deleted hclean (List.mem_filter.1 hd).1
    rw [Function.comp_apply, Queue.payload?_of_holds hholds]
    rfl
  · rw [Queue.run_safeHandles hordered, hafter]
  · intro d hd
    obtain ⟨hchain, hkind⟩ := hn.mem_chain_of_deleted hclean hd
    rw [Deferral.isHandle_iff] at hkind
    obtain ⟨safe, hrun, hsafe⟩ := Queue.run_isSafeToInspect ho hin hchain hsnap hkind
    rw [hrun]
    congr 1
    rw [Bool.eq_iff_iff, decide_eq_true_eq, hsafe, hn.lt_iff_before hclean hp hd]

theorem pending_eq : s.queue.stats.pending = s.deleted.length := by
  rw [hn.kept.timeline.orderly.pending, List.countP_eq_length_filter, ← hn.deleted_eq hclean,
    List.length_map]

theorem length_chain : xs.length = snaps.length + s.deleted.length := by
  have hsnaps := (hn.snapshots.trans hn.kept.snapshots_perm).length_eq
  have hdeleted := congrArg List.length (hn.deleted_eq hclean)
  have hboth := List.length_eq_countP_add_countP (·.isSnapshot) (l := xs)
  have hkinds : xs.countP (fun e => ¬ e.isSnapshot = true) = xs.countP isHandle := by
    apply List.countP_congr
    intro e _
    simp [isHandle]
  rw [List.length_map, ← List.countP_eq_length_filter] at hsnaps hdeleted
  rw [hboth, hsnaps, hdeleted, hkinds]

end Clean

theorem isEmpty_iff (hn : Noted s snaps handles xs c) : s.queue.isEmpty = true ↔ snaps = [] := by
  rw [hn.kept.isEmpty_iff, ← List.length_eq_zero_iff, ← hn.snapshots.length_eq, List.length_map,
    List.length_eq_zero_iff]

/-! ## The checks -/

theorem run_checkDeleted (hn : Noted s snaps handles xs c) (hd : d ∈ s.deleted) (t : State) :
    (checkDeleted (snaps.map (·.2)).min? s.dropped d).run t =
      .ok ((snaps.map (·.2)).min?.any (· < d.deletedAt)) t := by
  have hdiffer : ((snaps.map (·.2)).min?.any (· < d.deletedAt) != s.dropped.contains d.key) = true := by
    rw [bne_iff_ne, Ne, Bool.eq_iff_iff, any_min?_lt, List.contains_iff_mem, hn.guarded_iff hd]
    exact not_iff_self
  unfold checkDeleted
  rw [run_bind_of_run_eq_ok (run_ensure hdiffer _)]
  rfl

theorem run_checkSnapshot {e : EntryId} {madeAt : Nat} (hs : s.Sees e madeAt) (id : UInt32) :
    (checkSnapshot id e madeAt).run s = .ok () s := by
  unfold checkSnapshot
  rw [run_bind_of_run_eq_ok (EStateM.run_get s), run_bind_of_run_eq_ok (run_onQueue hs.payloads),
    run_bind_of_run_eq_ok (run_ensure_beq rfl _), run_bind_of_run_eq_ok (run_onQueue hs.handles),
    run_bind_of_run_eq_ok (run_ensure_beq rfl _)]
  apply run_forM
  intro d hd
  rw [run_bind_of_run_eq_ok (run_onQueue (hs.verdicts d hd))]
  exact run_ensure_beq rfl _

theorem ends_checkQueue (hn : Noted s s.snapshots.values handles xs c) :
    Ends checkQueue s fun _ t => ∃ deleted, t = { s with deleted, dropped := [] } ∧
      Noted t s.snapshots.values handles xs c := by
  have hn' := hn.confirms fun d _ => any_min?_lt
  unfold checkQueue
  rw [ends_bind_get, ends_bind_modify,
    ends_bind_of_run_eq_ok (run_filterM fun d hd => hn.run_checkDeleted hd _), ends_bind_modify]
  generalize s.deleted.filter (fun d => (s.snapshots.values.map (·.2)).min?.any (· < d.deletedAt)) =
    deleted at hn' ⊢
  have hsize : s.snapshots.values.length = s.snapshots.size := List.length_map _
  have hempty : (s.queue.isEmpty == (s.snapshots.size == 0)) = true := by
    rw [beq_iff_eq, Bool.eq_iff_iff, beq_iff_eq, ← hsize, List.length_eq_zero_iff]
    exact hn'.isEmpty_iff
  have ho := hn'.kept.timeline.orderly
  have hlength := hn'.length_chain rfl
  rw [hsize, ← List.length_reverse] at hlength
  rw [ends_bind_of_run_eq_ok (run_forM fun entry hentry =>
      run_checkSnapshot (hn'.sees rfl (List.mem_map_of_mem hentry)) entry.1),
    ends_bind_of_run_eq_ok (run_isEmpty _),
    ends_bind_of_run_eq_ok (run_ensure hempty _),
    ends_bind_of_run_eq_ok (run_onQueue (Queue.run_readStats ho.free)),
    ends_bind_of_run_eq_ok (run_ensure_beq (hn'.pending_eq rfl) _),
    ends_bind_of_run_eq_ok (run_onQueue (Queue.run_entries ho))]
  exact ends_of_run_eq_ok (run_ensure_beq hlength _) ⟨deleted, rfl, hn'⟩

end Noted
end RopeStore.Trial
