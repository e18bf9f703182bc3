import Mathlib.Data.List.Basic
import RopeStore.Proofs.Trial.Perform

/-!
# Every trial passes

* `State.Agreed` : the heap and the queue of a trial are as its model has them;
* `Settled n s` : what holds between two operations; `Settled.agreed` : it makes them agree;
* `Settled.ends_step`, `Settled.ends_steps` : one operation with its checks, and a list of them;
* `Settled.ends_tearDown` : the end of a trial;
* `run_passes` : no check of a trial fails, nothing in it faults, and heap and queue agree with the
  model after every operation.
-/

namespace RopeStore.Trial
open Deferral (EntryId Chronicle Kept Queue Holds)
variable {s : State} {n : Nat}

/-- The heap and the queue are as the model has them. -/
structure State.Agreed (s : State) : Prop where
  /-- Every node has the bytes, the count and the uniqueness that are expected of it. -/
  nodes : ∀ live ∈ s.nodes.values, s.Agrees live
  /-- The heap keeps the external nodes that are reachable, and no others. -/
  lent : ∀ key, (∃ id, s.heap.owner? id = some key) ↔
    ∃ live ∈ s.nodes.values, live.external = some key
  unreleased : s.released = [] ∧ s.unreleased.Nodup ∧ ∀ key, key ∈ s.unreleased ↔
    ∃ live ∈ s.nodes.values, live.external = some key
  /-- The deleted handles that are waited for are guarded, and own their payloads. -/
  deleted : s.dropped = [] ∧ ∀ d ∈ s.deleted, Holds s.queue d.id d.key ∧
    ∃ p ∈ s.snapshots.values, p.2 < d.deletedAt
  handles : ∀ h ∈ s.handles.values, ∃ key, Holds s.queue h key
  /-- Every snapshot sees what was deleted after it was made. -/
  snapshots : ∀ p ∈ s.snapshots.values, s.Sees p.1 p.2
  /-- The queue is empty without snapshots, and counts the handles that wait. -/
  counters : (s.queue.isEmpty = true ↔ s.snapshots.values = []) ∧
    s.queue.stats.pending = s.deleted.length

/-- After `n` operations with their checks. -/
structure Settled (n : Nat) (s : State) : Prop where
  sound : Sound n s
  released : s.released = []
  dropped : s.dropped = []

namespace Settled

theorem agreed (hs : Settled n s) (hroom : n < RefCount.bound) : s.Agreed := by
  obtain ⟨hsound, hreleased, hdropped⟩ := hs
  obtain ⟨keys, hm, hkeys⟩ := hsound.nodes.lent
  obtain ⟨xs, c, hq⟩ := hsound.entries
  rw [hreleased, List.nil_append] at hkeys
  have hfew := Nat.lt_of_le_of_lt hsound.fewNodes hroom
  refine ⟨fun live => hsound.nodes.agrees hfew, ?_, ⟨hreleased, hsound.nodes.once, ?_⟩,
    ⟨hdropped, ?_⟩, ?_, fun p hp => hq.sees hdropped hp, hq.isEmpty_iff, hq.pending_eq hdropped⟩
  · intro key
    rw [← hm.lends.mem_iff, hm.mem_keys_iff]
  · intro key
    rw [hkeys.mem_iff, hm.mem_keys_iff]
  · intro d hd
    refine ⟨hq.holds_of_deleted hdropped hd, (hq.guarded_iff hd).2 ?_⟩
    rw [hdropped]
    exact List.not_mem_nil
  · intro h hh
    obtain ⟨key, -, hholds⟩ := hq.mem_made_of_live (hq.handles.mem_iff.1 hh)
    exact ⟨key, hholds⟩

theorem withLog (hs : Settled n s) (lines : Array Line) : Settled n { s with log := lines } := by
  obtain ⟨xs, c, hq⟩ := hs.sound.entries
  have hentries : ∃ xs c, Noted { s with log := lines } s.snapshots.values s.handles.values xs c :=
    ⟨xs, c, { hq with }⟩
  exact ⟨{ hs.sound with nodes := { hs.sound.nodes with }, entries := hentries }, hs.released,
    hs.dropped⟩

/-! ## One operation after the other -/

theorem ends_checks (hs : Sound n s) (hroom : n < RefCount.bound) :
    Ends (do checkNodes; checkReleases; checkQueue) s fun _ t => Settled n t := by
  obtain ⟨xs, c, hq⟩ := hs.entries
  rw [ends_bind_of_run_eq_ok (hs.nodes.run_checkNodes (Nat.lt_of_le_of_lt hs.fewNodes hroom))]
  apply hs.nodes.ends_checkReleases.bind
  intro _ t ht
  obtain ⟨⟨unreleased, log, rfl⟩, hn⟩ := ht
  have hq' : Noted { s with unreleased, log, released := [] } s.snapshots.values s.handles.values xs c :=
    { hq with }
  apply hq'.ends_checkQueue.mono
  intro _ t ht
  obtain ⟨deleted, rfl, hq''⟩ := ht
  exact ⟨{ hs with nodes := { hn with }, entries := ⟨xs, c, hq''⟩ }, rfl, rfl⟩

theorem ends_step (hs : Settled n s) (hroom : n + 1 < RefCount.bound) (limit : Nat) (op : Op) :
    Ends (step limit op) s fun _ t => Settled (n + 1) t := by
  unfold step
  rw [ends_bind_log]
  have hs' := hs.withLog (s.log.push (.running op))
  apply (hs'.sound.ends_perform hroom limit op).bind
  intro did t ht
  cases did with
  | true => exact ends_checks ht.1 hroom
  | false =>
    rw [ht.2 rfl]
    exact ⟨hs'.sound.succ, hs'.released, hs'.dropped⟩

theorem ends_steps (hs : Settled n s) {ops : List Op} (hroom : n + ops.length < RefCount.bound)
    (limit : Nat) : Ends (ops.forM (step limit)) s fun _ t => Settled (n + ops.length) t := by
  refine (ends_forM (fun rest t => ∃ m, m + rest.length = n + ops.length ∧ Settled m t)
    ⟨n, rfl, hs⟩ ?_).mono ?_
  · intro op rest t ht
    obtain ⟨m, hm, ht⟩ := ht
    rw [List.length_cons] at hm
    refine (ht.ends_step (by omega) limit op).mono fun _ t' ht' => ⟨m + 1, by omega, ht'⟩
  · intro _ t ht
    obtain ⟨m, hm, ht⟩ := ht
    rwa [List.length_nil, Nat.add_zero, ← hm] at *

/-! ## The end -/

theorem ends_tearDown (hs : Settled n s) (hroom : n < RefCount.bound) :
    Ends tearDown s fun _ _ => True := by
  obtain ⟨hsound, -, -⟩ := hs
  obtain ⟨xs, c, hq⟩ := hsound.entries
  have hevents := hsound.events_lt hroom hq
  unfold tearDown
  rw [ends_bind_get, ends_bind_modify]
  have hn : Nodes { s with nodes := .empty, handles := .empty, snapshots := .empty } s.nodes.values :=
    { hsound.nodes with }
  apply (hn.ends_releaseAll (Nat.lt_of_le_of_lt hsound.fewNodes hroom)).bind
  intro _ t ht
  obtain ⟨⟨heap, released, log, rfl⟩, hn⟩ := ht
  refine (ends_endHandles (s := { s with
    nodes := .empty, handles := .empty, snapshots := .empty, heap, released, log })
    hq.kept hq.handles).bind fun _ t ht => ?_
  obtain ⟨queue, dropped, log, xs', c', rfl, hk, hsnapshots, hlength⟩ := ht
  refine (ends_endSnapshots (s := { s with
    nodes := .empty, handles := .empty, snapshots := .empty, heap, released, queue, dropped, log })
    hk (hsnapshots ▸ hq.snapshots) (by omega)).bind fun _ t ht => ?_
  obtain ⟨queue, dropped, log, c', rfl, hk⟩ := ht
  have hn' : Nodes { s with
      nodes := .empty, handles := .empty, snapshots := .empty, heap, released, queue, dropped, log }
      (Table.empty : Table UInt32 LiveNode).values := { hn with }
  apply (Nodes.ends_checkReleases hn').bind
  intro _ t ht
  obtain ⟨⟨unreleased, log, rfl⟩, hn⟩ := ht
  have hreleased : unreleased.isEmpty = true := by
    obtain ⟨keys, hm, hkeys⟩ := hn.lent
    rw [List.isEmpty_iff, List.eq_nil_iff_forall_not_mem]
    intro key hkey
    obtain ⟨live, hlive, -⟩ := hm.mem_keys_iff.1 (hkeys.mem_iff.1 hkey)
    exact List.not_mem_nil hlive
  have ho := hk.timeline.orderly
  have hempty : queue.isEmpty = true := ho.isEmpty_eq
  have hpending : queue.stats.pending = 0 := ho.pending
  have hclose : queue.close = .ok () := by
    unfold Queue.close
    rw [hempty, if_pos hpending]
    rfl
  rw [ends_bind_get, ends_bind_of_run_eq_ok (run_ensure hreleased _),
    ends_bind_of_run_eq_ok (run_isEmpty _), ends_bind_of_run_eq_ok (run_ensure hempty _),
    ends_bind_of_run_eq_ok (run_onQueue (Queue.run_readStats ho.free)),
    ends_bind_of_run_eq_ok (run_ensure_beq hpending _), ends_bind_get]
  exact ends_of_run_eq_ok (run_orFail hclose) trivial

end Settled

theorem settled_started : Settled 0 { State.initial with log := #[.started] } := by
  have hs : Settled 0 State.initial := ⟨sound_initial, rfl, rfl⟩
  exact hs.withLog #[.started]

/-- **No check of a trial fails and nothing in it faults, and after each of its operations the heap and
the queue are as the model has them.** -/
theorem run_passes (limit : Nat) (ops : List Op) (hshort : ops.length < RefCount.bound) :
    (run limit ops).failure = none ∧
    ∀ done, done <+: ops → ∃ s, (do log .started; done.forM (step limit)).run .initial = .ok () s ∧
      s.Agreed := by
  constructor
  · have hplay : Ends (play limit ops) State.initial fun _ _ => True := by
      unfold play
      rw [ends_bind_log]
      apply (settled_started.ends_steps (by omega) limit).bind
      intro _ t ht
      exact ht.ends_tearDown (by omega)
    obtain ⟨_, s, hrun, -⟩ := hplay.run_eq_ok
    rw [run, hrun]
  · intro done hdone
    have hlength := hdone.length_le
    have hsteps : Ends (do log .started; done.forM (step limit)) State.initial
        fun _ t => Settled (0 + done.length) t := by
      rw [ends_bind_log]
      exact settled_started.ends_steps (by omega) limit
    obtain ⟨_, s, hrun, hs⟩ := hsteps.run_eq_ok
    exact ⟨s, hrun, hs.agreed (by omega)⟩

/-- A trial in which a part outlives the number of its source, and a snapshot is replaced while a
deleted handle waits for it. -/
def replacements : List Op :=
  [.newExternal 1 4 7, .subRange 2 1 1 1, .newBuffer 1 3 0, .append 1 200 9, .newSnapshot 0,
    .newHandle 0, .deleteHandle 0, .newSnapshot 0, .dropNode 2]

theorem run_passes_replacements :
    replacements.length < RefCount.bound ∧ (run 100 replacements).failure = none ∧
      ∀ done, done <+: replacements →
        ∃ s, (do log .started; done.forM (step 100)).run .initial = .ok () s ∧ s.Agreed :=
  ⟨by decide, run_passes 100 replacements (by decide)⟩

end RopeStore.Trial
