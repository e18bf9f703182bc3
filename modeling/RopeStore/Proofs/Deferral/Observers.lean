import Mathlib.Data.List.Basic
import RopeStore.Proofs.Deferral.Cascade
import RopeStore.Proofs.Deferral.Visible

/-!
# What a snapshot is told

A snapshot has three observers: a walk towards the newer end that lists handles, the same walk for
payloads of one type, and a walk from the newest entry on that stops at a given handle.

* `Chronicle.deletedSince c s` : the handles that were deleted after `s` was made;
* `Pending q h` : the handle `h` is deleted and waits in the chain of `q`;
* `Observed q c s` : what the observers of `s` answer is what happened, by the chronicle `c`;
* `Kept.observed` : they do so for every snapshot that lives;
* `observers_agree` : and this is so after everything that one client, a client with destructors that
  use the queue, or threads can do.
-/

namespace RopeStore.Deferral
variable {α : Type} {q : Queue α} {as xs ys doomed : List EntryId} {e h s : EntryId} {c : Chronicle α}

/-- The handles that were deleted after `s` was made, in this order. -/
def Chronicle.deletedSince (c : Chronicle α) (s : EntryId) : List EntryId :=
  c.deleted.filter fun h => [s, h].Sublist c.events

@[simp] theorem Chronicle.mem_deletedSince :
    h ∈ c.deletedSince s ↔ h ∈ c.deleted ∧ [s, h].Sublist c.events := by
  simp [Chronicle.deletedSince]

/-- The handle `h` is deleted, and its payload waits in the chain. -/
def Pending (q : Queue α) (h : EntryId) : Prop :=
  isHandle h = true ∧ ∃ chain, Queue.entries.run q = .ok chain q ∧ h ∈ chain

theorem Orderly.pending_iff (ho : Orderly q xs) : Pending q h ↔ isHandle h = true ∧ h ∈ xs := by
  have hrun := Queue.run_entries ho
  constructor
  · rintro ⟨hkind, chain, hchain, hmem⟩
    rw [hrun] at hchain
    cases hchain
    exact ⟨hkind, List.mem_reverse.1 hmem⟩
  · rintro ⟨hkind, hmem⟩
    exact ⟨hkind, xs.reverse, hrun, List.mem_reverse.2 hmem⟩

/-- What the observers of the snapshot `s` answer is what happened. -/
structure Observed (q : Queue α) (c : Chronicle α) (s : EntryId) : Prop where
  handles : (Queue.safeHandles s).run q = .ok (c.deletedSince s) q
  complete : ∀ h ∈ c.deleted, [s, h].Sublist c.events → h ∈ c.deletedSince s
  waiting : ∀ h, h ∈ c.deletedSince s ↔ Pending q h ∧ [s, h].Sublist c.events
  inOrder : (c.deletedSince s).Sublist c.events
  payloads : ∃ shown : List (EntryId × α), shown.map (·.1) = c.deletedSince s ∧
    (∀ p ∈ shown, p ∈ c.made ∧ Holds q p.1 p.2) ∧
    ∀ {β : Type} (select : α → Option β),
      (Queue.inspectDeleted s select).run q = .ok (shown.filterMap fun p => select p.2) q
  pending : ∀ h, Pending q h → ∃ safe, (Queue.isSafeToInspect s (some h)).run q = .ok safe q ∧
    (safe = true ↔ h ∈ c.deletedSince s)
  undeleted : ∀ h ∈ c.handles, (Queue.isSafeToInspect s (some h)).run q = .ok true q
  snapshots : ∀ e : EntryId, e.isSnapshot = true →
    (Queue.isSafeToInspect s (some e)).run q = .ok false q
  answers : ∀ target, ∃ safe, (Queue.isSafeToInspect s target).run q = .ok safe q

namespace Kept

/-- What was deleted after a snapshot was made stands behind it in the chain. -/
theorem deletedSince_eq (hk : Kept q (as ++ s :: ys) doomed c) :
    c.deletedSince s = ys.filter isHandle := by
  have ht := hk.timeline
  have hnodup := ht.orderly.nodup
  have hsuffix : (s :: ys).Sublist (as ++ s :: ys) := List.sublist_append_right as _
  have hys : ys.Sublist c.events := ((List.sublist_cons_self s ys).trans hsuffix).trans ht.sub
  have hs : s ∈ as ++ s :: ys := hsuffix.subset List.mem_cons_self
  conv_rhs => rw [← filter_mem_of_sublist hys ht.nodup]
  rw [Chronicle.deletedSince, Chronicle.deleted, List.filter_filter, List.filter_filter]
  apply List.filter_congr
  intro h hevent
  cases hkind : isHandle h with
  | false => simp
  | true =>
    suffices hiff : [s, h].Sublist c.events ↔ h ∈ ys by simp [hiff]
    constructor
    · intro hbefore
      -- A handle that had left the chain would have been deleted before the snapshot was made.
      have hmem : h ∈ as ++ s :: ys := by
        by_contra hout
        exact ht.late h hevent hkind hout s hs hbefore
      exact (before_iff_mem hnodup).1 ((before_iff_of_sublist ht.sub ht.nodup hs hmem).2 hbefore)
    · exact fun hmem => ((before_iff_mem hnodup).2 hmem).trans ht.sub

/-- The payloads of handles of the chain are those that the handles were made with. -/
theorem exists_payloads (hk : Kept q xs doomed c) {hs : List EntryId}
    (hhs : ∀ h ∈ hs, isHandle h = true ∧ h ∈ xs) :
    ∃ shown : List (EntryId × α), shown.map (·.1) = hs ∧
      ∀ p ∈ shown, p ∈ c.made ∧ Holds q p.1 p.2 := by
  induction hs with
  | nil => exact ⟨[], rfl, by simp⟩
  | cons h rest ih =>
    obtain ⟨shown, hshown, hheld⟩ := ih fun h' hh' => hhs h' (List.mem_cons_of_mem _ hh')
    obtain ⟨hkind, hmem⟩ := hhs h List.mem_cons_self
    obtain ⟨payload, hholds⟩ := exists_holds (hk.timeline.orderly.stands hmem) hkind
    have hmade := hk.stock.mem_made hholds (hk.timeline.sub.subset hmem)
    refine ⟨(h, payload) :: shown, by rw [List.map_cons, hshown], fun p hp => ?_⟩
    rcases List.mem_cons.1 hp with rfl | hp
    · exact ⟨hmade, hholds⟩
    · exact hheld p hp

theorem not_mem_chain_of_live (hk : Kept q xs doomed c) (hh : h ∈ c.handles) : h ∉ xs :=
  fun hmem => hk.not_mem_events_of_live hh (hk.timeline.sub.subset hmem)

/-- A snapshot that lives is told what happened. -/
theorem observed (hk : Kept q xs doomed c) (hs : s ∈ c.snapshots) : Observed q c s := by
  obtain ⟨hin, hsnap⟩ := (hk.live s).1 hs
  obtain ⟨as, ys, rfl⟩ := List.append_of_mem hin
  have ho := hk.timeline.orderly
  have hsince := hk.deletedSince_eq
  have hys : ∀ h ∈ ys.filter isHandle, isHandle h = true ∧ h ∈ as ++ s :: ys := fun h hh =>
    ⟨(List.mem_filter.1 hh).2, List.mem_append_right _ (List.mem_cons_of_mem _ (List.mem_filter.1 hh).1)⟩
  have hdeleted : ∀ h, isHandle h = true → h ∈ as ++ s :: ys → h ∈ c.deleted := fun h hkind hmem =>
    Chronicle.mem_deleted.2 ⟨hk.timeline.sub.subset hmem, hkind⟩
  have hpending : ∀ h, Pending q h → ∃ safe,
      (Queue.isSafeToInspect s (some h)).run q = .ok safe q ∧ (safe = true ↔ h ∈ c.deletedSince s) := by
    intro h hp
    obtain ⟨hkind, hmem⟩ := ho.pending_iff.1 hp
    obtain ⟨safe, hrun, hsafe⟩ := Queue.run_isSafeToInspect ho hin hmem hsnap (isHandle_iff.1 hkind)
    refine ⟨safe, hrun, hsafe.trans ?_⟩
    rw [before_iff_of_sublist hk.timeline.sub hk.timeline.nodup hin hmem, Chronicle.mem_deletedSince,
      and_iff_right (hdeleted h hkind hmem)]
  have hsnapshots : ∀ e : EntryId, e.isSnapshot = true →
      (Queue.isSafeToInspect s (some e)).run q = .ok false q := by
    intro e he
    rw [Queue.isSafeToInspect, if_pos he]
    rfl
  constructor
  case handles =>
    rw [hsince]
    exact Queue.run_safeHandles ho
  case complete => exact fun h hh hbefore => Chronicle.mem_deletedSince.2 ⟨hh, hbefore⟩
  case waiting =>
    intro h
    constructor
    · intro hh
      exact ⟨ho.pending_iff.2 (hys h (hsince ▸ hh)), (Chronicle.mem_deletedSince.1 hh).2⟩
    · rintro ⟨hp, hbefore⟩
      obtain ⟨hkind, hmem⟩ := ho.pending_iff.1 hp
      exact Chronicle.mem_deletedSince.2 ⟨hdeleted h hkind hmem, hbefore⟩
  case inOrder => exact List.filter_sublist.trans List.filter_sublist
  case payloads =>
    obtain ⟨shown, hshown, hheld⟩ := hk.exists_payloads hys
    refine ⟨shown, hshown.trans hsince.symm, hheld, fun select => ?_⟩
    rw [Queue.run_inspectDeleted ho, ← hshown, List.filterMap_map]
    congr 1
    apply List.filterMap_congr
    intro p hp
    rw [Function.comp_apply, Queue.payload?_of_holds (hheld p hp).2, Option.bind_some]
  case pending => exact hpending
  case undeleted =>
    exact fun h hh => Queue.run_isSafeToInspect_of_not_mem ho hin (hk.not_mem_chain_of_live hh)
      (isHandle_iff.1 (hk.isHandle_of_live hh))
  case snapshots => exact hsnapshots
  case answers =>
    intro target
    rcases target with _ | h
    · exact ⟨true, rfl⟩
    cases hkind : h.isSnapshot with
    | true => exact ⟨false, hsnapshots h hkind⟩
    | false =>
      by_cases hmem : h ∈ as ++ s :: ys
      · obtain ⟨safe, hrun, -⟩ := hpending h (ho.pending_iff.2 ⟨isHandle_iff.2 hkind, hmem⟩)
        exact ⟨safe, hrun⟩
      · exact ⟨true, Queue.run_isSafeToInspect_of_not_mem ho hin hmem hkind⟩

end Kept

/-- **Whatever one client, a client with destructors that use the queue, or threads do: a snapshot that
lives is told exactly the pending handles that were deleted after it was made, in the order of their
deletion, and their payloads; its verdict on a pending handle is whether it is among these; handles
that are not deleted are safe, snapshots are not; and it gets a verdict on everything.** -/
theorem observers_agree (number : Nat) (kind : LockKind) :
    (∀ acts : List (Session.Act α),
      let session := (Session.start number kind).run acts
      ∀ s ∈ session.chronicle.snapshots, Observed session.queue session.chronicle s) ∧
    (∀ moves : List (Cascade.Move α),
      let cascade := (Cascade.start number kind).run moves
      ∀ s ∈ cascade.chronicle.snapshots, Observed cascade.queue cascade.chronicle s) ∧
    ∀ (threads : Nat) (schedule : List (Nat × World.Move α)),
      let world := (World.start threads number kind).run schedule
      ∀ s ∈ world.chronicle.snapshots, Observed world.queue world.chronicle s := by
  refine ⟨fun acts s hs => ?_, fun moves s hs => ?_, fun threads schedule s hs => ?_⟩
  · obtain ⟨xs, lost, hk, -⟩ := (Session.sound_start number kind).run acts
    exact hk.observed hs
  · obtain ⟨xs, lost, hk, -⟩ := ((Cascade.sound_start number kind).run moves).works.kept
    exact hk.observed hs
  · obtain ⟨xs, lost, hk, -⟩ := ((World.sound_start threads number kind).run schedule).kept
    exact hk.observed hs

/-- A handle is deleted between two snapshots, and only the older one is told. -/
example :
    let session := (Session.start 0 .checking).run
      [.openSnapshot, .newHandle 'h', .deleteHandle ⟨0, 1, false⟩, .openSnapshot]
    (Queue.safeHandles ⟨0, 0, true⟩).run session.queue = .ok [⟨0, 1, false⟩] session.queue ∧
      (Queue.safeHandles ⟨0, 2, true⟩).run session.queue = .ok [] session.queue :=
  ⟨rfl, rfl⟩

end RopeStore.Deferral
