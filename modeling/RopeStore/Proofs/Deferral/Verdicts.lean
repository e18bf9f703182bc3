import Mathlib.Data.List.Basic
import RopeStore.Proofs.Deferral.Observers

/-!
# What the verdict on a handle is worth

The verdict on a handle is found in the chain, and the chain does not remember the handles that have
left it, nor those that were deleted while it was empty. So a snapshot is told that they are safe.

* `Past q c s h` : the handle `h` was deleted before the snapshot `s` was made, and does not wait any
  longer;
* `Verdicts q c s` : not safe are the handles that wait and were deleted before `s` was made, and no
  others; and the payload of a safe handle is there, unless the handle is past;
* `Kept.verdicts`, `Kept.isDropped_of_past` : this is so for every snapshot that lives, and a past handle
  has lost its payload unless it is just on its way out;
* `verdicts_are_right` : and it is so after everything that one client, a client with destructors that
  use the queue, or threads can do;
* `past_handle_counts_as_safe` : a verdict on a past handle says nothing.
-/

namespace RopeStore.Deferral
variable {α : Type} {q : Queue α} {xs doomed : List EntryId} {h s : EntryId} {c : Chronicle α}

/-- The handle `h` was deleted before the snapshot `s` was made, and does not wait any longer. -/
def Past (q : Queue α) (c : Chronicle α) (s h : EntryId) : Prop :=
  h ∈ c.deleted ∧ [h, s].Sublist c.events ∧ ¬ Pending q h

/-- What the verdicts of the snapshot `s` on the handles that were ever made are worth. -/
structure Verdicts (q : Queue α) (c : Chronicle α) (s : EntryId) : Prop where
  /-- Not safe are the handles that wait and were deleted before `s` was made. -/
  verdict : ∀ h ∈ c.made.map (·.1), ∃ safe, (Queue.isSafeToInspect s (some h)).run q = .ok safe q ∧
    (safe = false ↔ Pending q h ∧ [h, s].Sublist c.events)
  /-- The payload of a safe handle is there, unless the handle is past. -/
  sound : ∀ h ∈ c.made.map (·.1), (Queue.isSafeToInspect s (some h)).run q = .ok true q →
    ¬ Past q c s h → ¬ c.IsDropped h

namespace Kept

/-- A handle that waits was deleted before or after a snapshot that lives. -/
theorem before_iff_not_deletedSince (hk : Kept q xs doomed c) (hs : s ∈ c.snapshots)
    (hh : h ∈ c.deleted) : [h, s].Sublist c.events ↔ h ∉ c.deletedSince s := by
  obtain ⟨hin, hsnap⟩ := (hk.live s).1 hs
  obtain ⟨hevent, hkind⟩ := Chronicle.mem_deleted.1 hh
  have hnodup := hk.timeline.nodup
  have hevent' := hk.timeline.sub.subset hin
  rw [Chronicle.mem_deletedSince, and_iff_right hh]
  constructor
  · exact before_asymm hnodup
  · exact (before_or_before hnodup hevent hevent' (ne_of_isHandle hkind hsnap)).resolve_right

theorem mem_deleted_of_pending (hk : Kept q xs doomed c) (hp : Pending q h) : h ∈ c.deleted := by
  obtain ⟨hkind, hmem⟩ := hk.timeline.orderly.pending_iff.1 hp
  exact Chronicle.mem_deleted.2 ⟨hk.timeline.sub.subset hmem, hkind⟩

theorem verdicts (hk : Kept q xs doomed c) (hs : s ∈ c.snapshots) : Verdicts q c s := by
  have hobs := hk.observed hs
  have ho := hk.timeline.orderly
  have hverdict : ∀ h ∈ c.made.map (·.1), ∃ safe,
      (Queue.isSafeToInspect s (some h)).run q = .ok safe q ∧
        (safe = false ↔ Pending q h ∧ [h, s].Sublist c.events) := by
    intro h hmade
    by_cases hp : Pending q h
    · obtain ⟨safe, hrun, hsafe⟩ := hobs.pending h hp
      refine ⟨safe, hrun, ?_⟩
      rw [and_iff_right hp, hk.before_iff_not_deletedSince hs (hk.mem_deleted_of_pending hp), ← hsafe,
        Bool.not_eq_true]
    · obtain ⟨p, hmade', rfl⟩ := List.mem_map.1 hmade
      have hkind := hk.stock.isHandle_of_made hmade'
      have hout : p.1 ∉ xs := fun hmem => hp (ho.pending_iff.2 ⟨hkind, hmem⟩)
      refine ⟨true, Queue.run_isSafeToInspect_of_not_mem ho ((hk.live s).1 hs).1 hout
        (isHandle_iff.1 hkind), ?_⟩
      simp [hp]
  refine ⟨hverdict, fun h hmade hrun hpast => ?_⟩
  rcases hk.live_or_deleted hmade with hlive | hdeleted
  · exact hk.undropped_of_live hlive
  by_cases hsince : h ∈ c.deletedSince s
  · exact hk.undropped_of_watched hdeleted ⟨s, hs, (Chronicle.mem_deletedSince.1 hsince).2⟩
  · -- The handle was deleted before the snapshot was made and is not past, so it waits and is not safe.
    have hbefore := (hk.before_iff_not_deletedSince hs hdeleted).2 hsince
    have hp : Pending q h := by
      by_contra hp
      exact hpast ⟨hdeleted, hbefore, hp⟩
    obtain ⟨safe, hrun', hsafe⟩ := hverdict h hmade
    rw [hsafe.2 ⟨hp, hbefore⟩, hrun] at hrun'
    cases hrun'

/-- Where nothing is on its way out, a past handle has lost its payload. -/
theorem isDropped_of_past (hk : Kept q xs [] c) (hpast : Past q c s h) : c.IsDropped h := by
  obtain ⟨hdeleted, -, hp⟩ := hpast
  by_contra hd
  have hkind := (Chronicle.mem_deleted.1 hdeleted).2
  exact hp (hk.timeline.orderly.pending_iff.2 ⟨hkind, (hk.mem_chain_iff hdeleted).2 hd⟩)

end Kept

/-- **Whatever one client, a client with destructors that use the queue, or threads do: a snapshot that
lives gets a verdict on every handle that was ever made. The handles that wait and were deleted before
the snapshot was made are not safe, all others are. The payload of a safe handle is there if the handle
is not deleted, if it waits, or if it was deleted after the snapshot was made; of all other handles the
payload is gone, as soon as all operations under way have ended.** A session loses payloads only in a
fault, which takes as many deletions as a word can count. -/
theorem verdicts_are_right (number : Nat) (kind : LockKind) :
    (∀ acts : List (Session.Act α),
      let session := (Session.start number kind).run acts
      ∀ s ∈ session.chronicle.snapshots, Verdicts session.queue session.chronicle s ∧
        (session.chronicle.deleted.length < wordBound →
          ∀ h, Past session.queue session.chronicle s h → session.chronicle.IsDropped h)) ∧
    (∀ moves : List (Cascade.Move α),
      let cascade := (Cascade.start number kind).run moves
      ∀ s ∈ cascade.chronicle.snapshots, Verdicts cascade.queue cascade.chronicle s ∧
        (cascade.calls = [.idle] →
          ∀ h, Past cascade.queue cascade.chronicle s h → cascade.chronicle.IsDropped h)) ∧
    ∀ (threads : Nat) (schedule : List (Nat × World.Move α)),
      let world := (World.start threads number kind).run schedule
      ∀ s ∈ world.chronicle.snapshots, Verdicts world.queue world.chronicle s ∧
        ((∀ task ∈ world.tasks, task = .idle) →
          ∀ h, Past world.queue world.chronicle s h → world.chronicle.IsDropped h) := by
  refine ⟨fun acts s hs => ?_, fun moves s hs => ?_, fun threads schedule s hs => ?_⟩
  · obtain ⟨xs, lost, hk, hlost⟩ := (Session.sound_start number kind).run acts
    refine ⟨hk.verdicts hs, fun hword h hpast => ?_⟩
    obtain ⟨rfl, -⟩ := hlost.resolve_right (Nat.not_le_of_lt hword)
    exact hk.isDropped_of_past hpast
  · obtain ⟨xs, lost, hk, hlost⟩ := ((Cascade.sound_start number kind).run moves).works.kept
    refine ⟨hk.verdicts hs, fun hend h hpast => ?_⟩
    rw [hend] at hk hlost
    obtain rfl := hlost.resolve_right (by simp)
    exact hk.isDropped_of_past hpast
  · obtain ⟨xs, lost, hk, hlost⟩ := ((World.sound_start threads number kind).run schedule).kept
    refine ⟨hk.verdicts hs, fun hidle h hpast => ?_⟩
    obtain rfl := hlost.resolve_right fun hstop => nomatch hidle _ hstop
    have hnothing : ((World.start threads number kind).run schedule).tasks.flatMap Task.doomed = [] :=
      List.flatMap_eq_nil_iff.2 fun task htask => by rw [hidle task htask]; rfl
    rw [hnothing] at hk
    exact hk.isDropped_of_past hpast

/-- A handle is deleted while the queue is empty, and a snapshot that is made later is told that it is
safe. -/
theorem past_handle_counts_as_safe :
    ¬ ∀ acts : List (Session.Act Char),
      let session := (Session.start 0 .checking).run acts
      ∀ s ∈ session.chronicle.snapshots, ∀ h ∈ session.chronicle.made.map (·.1),
        (Queue.isSafeToInspect s (some h)).run session.queue = .ok true session.queue →
          ¬ session.chronicle.IsDropped h := by
  intro hall
  refine hall [.newHandle 'h', .deleteHandle ⟨0, 0, false⟩, .openSnapshot] ⟨0, 1, true⟩ ?_
    ⟨0, 0, false⟩ ?_ rfl ?_
  · exact List.mem_cons_self
  · exact List.mem_cons_self
  · exact List.mem_cons_self

/-- The verdict on a handle is another one as soon as nobody waits for it. -/
example :
    let before := (Session.start 0 .checking).run
      [.openSnapshot, .newHandle 'h', .deleteHandle ⟨0, 1, false⟩, .openSnapshot]
    let after := before.run [.dropSnapshot ⟨0, 0, true⟩]
    (Queue.isSafeToInspect ⟨0, 2, true⟩ (some ⟨0, 1, false⟩)).run before.queue = .ok false before.queue ∧
      (Queue.isSafeToInspect ⟨0, 2, true⟩ (some ⟨0, 1, false⟩)).run after.queue = .ok true after.queue :=
  ⟨rfl, rfl⟩

end RopeStore.Deferral
