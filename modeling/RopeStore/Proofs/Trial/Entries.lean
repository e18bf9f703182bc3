import Mathlib.Data.List.Basic
import Mathlib.Data.List.Nodup
import Mathlib.Data.List.Perm.Basic
import RopeStore.Proofs.Deferral.Session
import RopeStore.Proofs.Deferral.Visible
import RopeStore.Proofs.Trial.Steps

/-!
# The snapshots and handles of a trial

The trial does not know the chain of its queue. It knows times: the time of an event is its position
in the history of the queue.

* `Chronicle.time` : that position; `before_iff_time_lt` : what comes before has the smaller time;
* `Noted s snaps handles xs c` : the trial has noted the snapshots `snaps` with their times, the
  handles `handles`, and of the deleted handles those whose payloads were not seen to be dropped;
* `ends_endHandle`, `ends_endSnapshot` : the ends of a handle and of a snapshot, seen from the trial;
* `Noted.opens`, `Noted.makes`, `Noted.deletes`, `Noted.closes` : what each operation on the queue does
  to the notes.
-/

namespace RopeStore.Deferral.Chronicle
variable {α : Type} {c c' : Chronicle α} {e e' : EntryId}

/-- The time of an event: how many events there are up to it. -/
def time (c : Chronicle α) (e : EntryId) : Nat := c.events.idxOf e + 1

theorem before_iff_time_lt (hnodup : c.events.Nodup) (he' : e' ∈ c.events) :
    [e, e'].Sublist c.events ↔ c.time e < c.time e' := by
  rw [before_iff_idxOf_lt hnodup, and_iff_right he', time, time, Nat.succ_lt_succ_iff]

theorem time_of_mem (hevents : c'.events = c.events ++ [e']) (he : e ∈ c.events) :
    c'.time e = c.time e := by
  rw [time, time, hevents, List.idxOf_append_of_mem he]

theorem time_of_notMem (hevents : c'.events = c.events ++ [e]) (he : e ∉ c.events) :
    c'.time e = c.events.length + 1 := by
  rw [time, hevents, List.idxOf_append_of_notMem he, List.idxOf_cons_self, Nat.add_zero]

end RopeStore.Deferral.Chronicle

namespace RopeStore.Trial
open Deferral (EntryId Chronicle Kept Queue Holds isHandle)
variable {s : State} {snaps : List (EntryId × Nat)} {handles xs xs' : List EntryId}
  {c : Chronicle Nat} {q : Queue Nat} {e h : EntryId} {key : Nat}

/-- The queue is as the trial has noted it. Of the payloads that were dropped, those of `old` were
seen to be, and those of `new` will be seen by the next check. -/
structure Noted (s : State) (snaps : List (EntryId × Nat)) (handles xs : List EntryId)
    (c : Chronicle Nat) : Prop where
  kept : Kept s.queue xs [] c
  snapshots : (snaps.map (·.1)).Perm c.snapshots
  handles : handles.Perm c.handles
  clock : s.clock = c.events.length
  madeAt : ∀ p ∈ snaps, p.2 = c.time p.1
  deletedAt : ∀ d ∈ s.deleted, d.deletedAt = c.time d.id
  owned : ∀ d ∈ s.deleted, (d.id, d.key) ∈ c.made
  waiting : ∃ old new, c.dropped = old ++ new ∧ s.dropped = new.map (·.2) ∧
    s.deleted.map (·.id) = c.deleted.filter (· ∉ old.map (·.1))
  keys : (c.made.map (·.2)).Nodup
  known : ∀ p ∈ c.made, p.2 ≤ s.lastKey

theorem noted_initial : Noted .initial [] [] [] .empty where
  kept := Deferral.kept_new 0 .checking
  snapshots := .refl _
  handles := .refl _
  clock := rfl
  madeAt := fun _ hp => absurd hp List.not_mem_nil
  deletedAt := fun _ hd => absurd hd List.not_mem_nil
  owned := fun _ hd => absurd hd List.not_mem_nil
  waiting := ⟨[], [], rfl, rfl, rfl⟩
  keys := List.nodup_nil
  known := fun _ hp => absurd hp List.not_mem_nil

/-! ## The ends of handles and snapshots -/

theorem ends_endHandle (hk : Kept s.queue xs [] c) (hh : h ∈ c.handles) :
    Ends (endHandle h) s fun _ t => ∃ queue taken log xs', t =
      { s with queue, log, dropped := s.dropped ++ taken.map (·.2) } ∧
      Kept queue xs' [] ((c.deletes h).drops taken) := by
  unfold endHandle
  apply (ends_onQueue (hk.ends_delete hh)).bind
  intro taken t ht
  obtain ⟨queue, ⟨xs', hk'⟩, rfl⟩ := ht
  cases taken with
  | none =>
    rw [Option.toList_none, List.map_nil] at hk'
    refine ⟨queue, [], s.log.push (.store (.deferred h)), xs', ?_, hk'⟩
    rw [List.map_nil, List.append_nil]
  | some key => exact ⟨queue, [(h, key)], s.log, xs', rfl, hk'⟩

theorem ends_endSnapshot (hk : Kept s.queue xs [] c) (he : e ∈ c.snapshots)
    (hword : c.deleted.length < wordBound) :
    Ends (endSnapshot e) s fun _ t => ∃ queue taken log xs', t =
      { s with queue, log, dropped := s.dropped ++ taken.map (·.2) } ∧
      Kept queue xs' [] ((c.closes e).drops taken) := by
  unfold endSnapshot
  apply (ends_onQueue (hk.ends_dropSnapshot he hword)).bind
  intro taken t ht
  obtain ⟨queue, ⟨xs', hk'⟩, rfl⟩ := ht
  rw [ends_bind_log]
  refine (ends_forM (fun rest t => ∃ log dropped, t = { s with queue, log, dropped } ∧
    dropped ++ rest.map (·.2) = s.dropped ++ taken.map (·.2)) ⟨_, _, rfl, rfl⟩ ?_).mono ?_
  · intro p rest t ht
    obtain ⟨log, dropped, rfl, hdropped⟩ := ht
    refine ⟨_, dropped ++ [p.2], rfl, ?_⟩
    rw [← hdropped, List.map_cons, List.append_assoc, List.singleton_append]
  · intro _ t ht
    obtain ⟨log, dropped, rfl, hdropped⟩ := ht
    rw [List.map_nil, List.append_nil] at hdropped
    exact ⟨queue, taken, log, xs', by rw [hdropped], hk'⟩

/-- A handle that is there is noted as deleted before it ends. -/
theorem run_retireHandle (hh : Holds s.queue h key) (hclock : s.clock + 1 < wordBound) :
    (retireHandle h).run s = (endHandle h).run
      { s with clock := s.clock + 1, deleted := s.deleted ++ [⟨key, h, s.clock + 1⟩] } := by
  obtain ⟨-, -, hcell⟩ := hh
  obtain ⟨⟨content, older, newer⟩, hfound, rfl⟩ := Option.map_eq_some_iff.1 hcell
  have hlook : (Queue.ask (·.cell h.serial)).run s.queue =
      .ok ⟨.handle key, older, newer⟩ s.queue :=
    Queue.run_ask_of_eq_ok (Queue.cell_eq_ok_iff.2 hfound)
  rw [retireHandle, run_bind_of_run_eq_ok (run_onQueue hlook)]
  show (tick >>= _ : TrialM Unit).run s = _
  rw [run_bind_of_run_eq_ok (run_tick hclock)]
  rfl

theorem ends_endHandles (hk : Kept s.queue xs [] c) (hhandles : handles.Perm c.handles) :
    Ends (handles.forM endHandle) s fun _ t => ∃ queue dropped log xs' c',
      t = { s with queue, dropped, log } ∧ Kept queue xs' [] c' ∧ c'.snapshots = c.snapshots ∧
      c'.events.length = c.events.length + handles.length := by
  refine (ends_forM (fun rest t => ∃ queue dropped log xs' c', t = { s with queue, dropped, log } ∧
    Kept queue xs' [] c' ∧ rest.Perm c'.handles ∧ c'.snapshots = c.snapshots ∧
      c'.events.length + rest.length = c.events.length + handles.length)
    ⟨s.queue, s.dropped, s.log, xs, c, rfl, hk, hhandles, rfl, rfl⟩ ?_).mono ?_
  · intro h rest _ ht
    obtain ⟨queue, dropped, log, xs', c', rfl, hk', hrest, hsnapshots, hlength⟩ := ht
    have hlive : h ∈ c'.handles := hrest.mem_iff.1 List.mem_cons_self
    apply (ends_endHandle (s := { s with queue, dropped, log }) hk' hlive).mono
    intro _ t ht
    obtain ⟨queue', taken, log', xs'', rfl, hk''⟩ := ht
    refine ⟨queue', _, log', xs'', _, rfl, hk'', ?_, hsnapshots, ?_⟩
    · have herase := hrest.erase h
      rwa [List.erase_cons_head] at herase
    · show (c'.events ++ [h]).length + rest.length = _
      simp only [← hlength, List.length_append, List.length_cons, List.length_nil]
      omega
  · intro _ t ht
    obtain ⟨queue, dropped, log, xs', c', rfl, hk', -, hsnapshots, hlength⟩ := ht
    exact ⟨queue, dropped, log, xs', c', rfl, hk', hsnapshots, hlength⟩

theorem ends_endSnapshots (hk : Kept s.queue xs [] c) (hsnaps : (snaps.map (·.1)).Perm c.snapshots)
    (hword : c.events.length < wordBound) :
    Ends (snaps.forM fun p => endSnapshot p.1) s fun _ t => ∃ queue dropped log c',
      t = { s with queue, dropped, log } ∧ Kept queue [] [] c' := by
  refine (ends_forM (fun rest t => ∃ queue dropped log xs' c', t = { s with queue, dropped, log } ∧
    Kept queue xs' [] c' ∧ (rest.map (·.1)).Perm c'.snapshots ∧ c'.events = c.events)
    ⟨s.queue, s.dropped, s.log, xs, c, rfl, hk, hsnaps, rfl⟩ ?_).mono ?_
  · intro p rest _ ht
    obtain ⟨queue, dropped, log, xs', c', rfl, hk', hrest, hevents⟩ := ht
    have hlive : p.1 ∈ c'.snapshots := hrest.mem_iff.1 List.mem_cons_self
    have hdeleted : c'.deleted.length < wordBound := by
      rw [← hevents] at hword
      exact Nat.lt_of_le_of_lt (List.length_filter_le _ _) hword
    refine (ends_endSnapshot (s := { s with queue, dropped, log }) hk' hlive hdeleted).mono
      fun _ t ht => ?_
    obtain ⟨queue', taken, log', xs'', rfl, hk''⟩ := ht
    refine ⟨queue', _, log', xs'', _, rfl, hk'', ?_, hevents⟩
    have herase := hrest.erase p.1
    rwa [List.map_cons, List.erase_cons_head] at herase
  · intro _ t ht
    obtain ⟨queue, dropped, log, xs', c', rfl, hk', hrest, -⟩ := ht
    obtain rfl := hk'.chain_eq_nil_iff.2 hrest.nil_eq.symm
    exact ⟨queue, dropped, log, c', rfl, hk'⟩

namespace Noted

theorem perm {snaps' : List (EntryId × Nat)} {handles' : List EntryId}
    (hn : Noted s snaps handles xs c) (hsnaps : snaps'.Perm snaps) (hhandles : handles'.Perm handles) :
    Noted s snaps' handles' xs c :=
  { hn with
    snapshots := (hsnaps.map _).trans hn.snapshots
    handles := hhandles.trans hn.handles
    madeAt := fun p hp => hn.madeAt p (hsnaps.mem_iff.1 hp) }

theorem mem_events_of_snapshot (hn : Noted s snaps handles xs c) {p : EntryId × Nat}
    (hp : p ∈ snaps) : p.1 ∈ c.events := by
  have hlive := hn.snapshots.mem_iff.1 (List.mem_map_of_mem hp)
  exact hn.kept.timeline.sub.subset ((hn.kept.live p.1).1 hlive).1

theorem mem_deleted (hn : Noted s snaps handles xs c) {d : DeletedHandle} (hd : d ∈ s.deleted) :
    d.id ∈ c.deleted := by
  obtain ⟨old, new, -, -, hwaiting⟩ := hn.waiting
  have hmem := List.mem_map_of_mem (f := (·.id)) hd
  rw [hwaiting] at hmem
  exact (List.mem_filter.1 hmem).1

theorem mem_events_of_deleted (hn : Noted s snaps handles xs c) {d : DeletedHandle}
    (hd : d ∈ s.deleted) : d.id ∈ c.events :=
  (Chronicle.mem_deleted.1 (hn.mem_deleted hd)).1

theorem mem_made_of_live (hn : Noted s snaps handles xs c) (hh : h ∈ c.handles) :
    ∃ key, (h, key) ∈ c.made ∧ Holds s.queue h key := by
  obtain ⟨p, hp, rfl⟩ := List.mem_map.1 (hn.kept.mem_made_of_live hh)
  refine ⟨p.2, hp, (hn.kept.stock.held p hp).resolve_left fun hdropped => ?_⟩
  exact hn.kept.undropped_of_live hh (List.mem_map_of_mem hdropped)

/-! ## What the operations note -/

/-- A new snapshot has the time at which it was made. -/
theorem opens (hn : Noted s snaps handles xs c) (hk : Kept q (xs ++ [e]) [] (c.opens e))
    (lines : Array Line) :
    Noted { s with queue := q, clock := s.clock + 1, log := lines } ((e, s.clock + 1) :: snaps) handles
      (xs ++ [e]) (c.opens e) where
  kept := hk
  snapshots := hn.snapshots.cons e
  handles := hn.handles
  clock := by
    show s.clock + 1 = (c.events ++ [e]).length
    simp [hn.clock]
  madeAt := by
    have hnew : e ∉ c.events := by
      have hnodup : (c.events ++ [e]).Nodup := hk.timeline.nodup
      intro hmem
      exact (List.nodup_append.1 hnodup).2.2 e hmem e List.mem_cons_self rfl
    intro p hp
    rcases List.mem_cons.1 hp with rfl | hp
    · rw [Chronicle.time_of_notMem rfl hnew, hn.clock]
    · rw [Chronicle.time_of_mem rfl (hn.mem_events_of_snapshot hp), hn.madeAt p hp]
  deletedAt := by
    intro d hd
    rw [Chronicle.time_of_mem rfl (hn.mem_events_of_deleted hd), hn.deletedAt d hd]
  owned := hn.owned
  waiting := by
    obtain ⟨old, new, hdropped, hnew, hwaiting⟩ := hn.waiting
    refine ⟨old, new, hdropped, hnew, ?_⟩
    have hsnap : isHandle e = false := by
      have hlive : e ∈ (c.opens e).snapshots := List.mem_cons_self
      exact Deferral.isHandle_eq_false ((hk.live e).1 hlive).2
    show _ = ((c.events ++ [e]).filter isHandle).filter _
    rw [List.filter_append, List.filter_cons_of_neg (by simp [hsnap]), List.filter_nil, List.append_nil]
    exact hwaiting
  keys := hn.keys
  known := hn.known

/-- A new handle has a key that no other handle has. -/
theorem makes (hn : Noted s snaps handles xs c) (hk : Kept q xs [] (c.makes h key))
    (hkey : s.lastKey < key) :
    Noted { s with queue := q, lastKey := key } snaps (h :: handles) xs (c.makes h key) where
  kept := hk
  snapshots := hn.snapshots
  handles := hn.handles.cons h
  clock := hn.clock
  madeAt := hn.madeAt
  deletedAt := hn.deletedAt
  owned := fun d hd => List.mem_cons_of_mem _ (hn.owned d hd)
  waiting := hn.waiting
  keys := by
    refine List.nodup_cons.2 ⟨fun hmem => ?_, hn.keys⟩
    obtain ⟨p, hp, rfl⟩ := List.mem_map.1 hmem
    exact Nat.not_lt_of_le (hn.known p hp) hkey
  known := by
    intro p hp
    rcases List.mem_cons.1 hp with rfl | hp
    · exact Nat.le_refl _
    · exact Nat.le_trans (hn.known p hp) (Nat.le_of_lt hkey)

/-- A deleted handle is noted with its key and the time at which it was deleted. -/
theorem deletes {ps : List (EntryId × Nat)} {lines : Array Line}
    (hn : Noted s snaps (h :: handles) xs c) (hmade : (h, key) ∈ c.made)
    (hk : Kept q xs' [] ((c.deletes h).drops ps)) :
    Noted
      { s with
        queue := q
        clock := s.clock + 1
        deleted := s.deleted ++ [⟨key, h, s.clock + 1⟩]
        dropped := s.dropped ++ ps.map (·.2)
        log := lines }
      snaps handles xs' ((c.deletes h).drops ps) := by
  have hlive : h ∈ c.handles := hn.handles.mem_iff.1 List.mem_cons_self
  have hnew : h ∉ c.events := hn.kept.not_mem_events_of_live hlive
  have hkind : isHandle h = true := hn.kept.isHandle_of_live hlive
  refine ⟨hk, hn.snapshots, ?_, ?_, ?_, ?_, ?_, ?_, hn.keys, hn.known⟩
  · have herase := hn.handles.erase h
    rwa [List.erase_cons_head] at herase
  · show s.clock + 1 = (c.events ++ [h]).length
    simp [hn.clock]
  · intro p hp
    rw [hn.madeAt p hp]
    exact (Chronicle.time_of_mem rfl (hn.mem_events_of_snapshot hp)).symm
  · intro d hd
    rcases List.mem_append.1 hd with hd | hd
    · rw [hn.deletedAt d hd]
      exact (Chronicle.time_of_mem rfl (hn.mem_events_of_deleted hd)).symm
    · rw [List.mem_singleton.1 hd, hn.clock]
      exact (Chronicle.time_of_notMem rfl hnew).symm
  · intro d hd
    rcases List.mem_append.1 hd with hd | hd
    · exact hn.owned d hd
    · rw [List.mem_singleton.1 hd]
      exact hmade
  · obtain ⟨old, new, hdropped, hdrops, hwaiting⟩ := hn.waiting
    have hstays : h ∉ old.map (·.1) := by
      intro hmem
      obtain ⟨p, hp, rfl⟩ := List.mem_map.1 hmem
      have hin : p ∈ c.dropped := by
        rw [hdropped]
        exact List.mem_append_left _ hp
      exact hnew (hn.kept.stock.gone p hin).2.1
    refine ⟨old, new ++ ps, ?_, ?_, ?_⟩
    · show c.dropped ++ ps = _
      rw [hdropped, List.append_assoc]
    · show s.dropped ++ ps.map (·.2) = _
      rw [hdrops, List.map_append]
    · show (s.deleted ++ [_]).map DeletedHandle.id = ((c.events ++ [h]).filter isHandle).filter _
      rw [List.map_append, hwaiting, List.filter_append, List.filter_append]
      simp [Chronicle.deleted, hkind, hstays]

/-- A snapshot that is dropped leaves the notes, and what waited only for it is dropped. -/
theorem closes {p : EntryId × Nat} {ps : List (EntryId × Nat)} {lines : Array Line}
    (hn : Noted s (p :: snaps) handles xs c) (hk : Kept q xs' [] ((c.closes p.1).drops ps)) :
    Noted { s with queue := q, dropped := s.dropped ++ ps.map (·.2), log := lines } snaps handles xs'
      ((c.closes p.1).drops ps) where
  kept := hk
  snapshots := by
    have herase := hn.snapshots.erase p.1
    rwa [List.map_cons, List.erase_cons_head] at herase
  handles := hn.handles
  clock := hn.clock
  madeAt := fun p' hp' => hn.madeAt p' (List.mem_cons_of_mem _ hp')
  deletedAt := hn.deletedAt
  owned := hn.owned
  waiting := by
    obtain ⟨old, new, hdropped, hdrops, hwaiting⟩ := hn.waiting
    refine ⟨old, new ++ ps, ?_, ?_, hwaiting⟩
    · show c.dropped ++ ps = _
      rw [hdropped, List.append_assoc]
    · show s.dropped ++ ps.map (·.2) = _
      rw [hdrops, List.map_append]
  keys := hn.keys
  known := hn.known

/-! ## The operations that end entries -/

theorem length_deleted_le (hn : Noted s snaps handles xs c) : c.deleted.length ≤ s.clock := by
  rw [hn.clock]
  exact List.length_filter_le _ _

theorem ends_endSnapshot {p : EntryId × Nat} (hn : Noted s (p :: snaps) handles xs c)
    (hclock : s.clock < wordBound) :
    Ends (endSnapshot p.1) s fun _ t => ∃ queue dropped log xs' c',
      t = { s with queue, dropped, log } ∧ Noted t snaps handles xs' c' := by
  have hlive : p.1 ∈ c.snapshots := hn.snapshots.mem_iff.1 List.mem_cons_self
  have hword := Nat.lt_of_le_of_lt hn.length_deleted_le hclock
  apply (Trial.ends_endSnapshot hn.kept hlive hword).mono
  intro _ t ht
  obtain ⟨queue, taken, log, xs', rfl, hk⟩ := ht
  exact ⟨queue, _, log, xs', _, rfl, hn.closes hk⟩

theorem ends_retireHandle (hn : Noted s snaps (h :: handles) xs c)
    (hclock : s.clock + 1 < wordBound) :
    Ends (retireHandle h) s fun _ t => ∃ queue deleted dropped log xs' c',
      t = { s with queue, deleted, dropped, log, clock := s.clock + 1 } ∧
      Noted t snaps handles xs' c' := by
  have hlive : h ∈ c.handles := hn.handles.mem_iff.1 List.mem_cons_self
  obtain ⟨key, hmade, hholds⟩ := hn.mem_made_of_live hlive
  rw [Ends, Leaves, run_retireHandle hholds hclock]
  refine Ends.mono (ends_endHandle hn.kept hlive) fun _ t ht => ?_
  obtain ⟨queue, taken, log, xs', rfl, hk⟩ := ht
  exact ⟨queue, _, _, log, xs', _, rfl, hn.deletes hmade hk⟩

end Noted
end RopeStore.Trial
