import Mathlib.Data.List.Basic
import Mathlib.Data.List.Nodup
import RopeStore.Proofs.Deferral.Payloads

/-!
# What is kept about a queue

* `Chronicle` : what a client can know about a queue, namely what it holds, what it did and which
  payloads were dropped;
* `Stock q doomed c` : every handle that was made still owns its payload, unless that was dropped, and
  the entries `doomed` have left the chain but not their cells;
* `Kept q xs doomed c` : the queue `q` with the chain `xs` is as the chronicle `c` says;
* `Kept.opens`, `Kept.makes`, `Kept.joins`, `Kept.passes`, `Kept.leaves`, `Kept.takes`, `Kept.frees` :
  the atomic steps, each with what it writes into the chronicle;
* `Kept.undropped_of_watched`, `Kept.watched_of_undropped`, `Kept.isEmpty_iff` : what follows for
  payloads and snapshots.
-/

namespace RopeStore.Deferral
open Queue (run_openSnapshot run_appendIfWatched leaves_removeSnapshot run_takePayload run_destroy_of_stands)
variable {α : Type} {q q' : Queue α} {xs doomed : List EntryId} {e h : EntryId} {payload : α}

/-- What happened to a queue so far. -/
structure Chronicle (α : Type) where
  snapshots : List EntryId
  handles : List EntryId
  /-- The snapshots that were made and the handles that were deleted, in this order. -/
  events : List EntryId
  /-- The handles that were made, with their payloads. -/
  made : List (EntryId × α)
  /-- The payloads that were dropped, with their handles, in this order. -/
  dropped : List (EntryId × α)

namespace Chronicle

def empty : Chronicle α := ⟨[], [], [], [], []⟩

def opens (c : Chronicle α) (e : EntryId) : Chronicle α :=
  { c with snapshots := e :: c.snapshots, events := c.events ++ [e] }

def makes (c : Chronicle α) (h : EntryId) (payload : α) : Chronicle α :=
  { c with handles := h :: c.handles, made := (h, payload) :: c.made }

def deletes (c : Chronicle α) (h : EntryId) : Chronicle α :=
  { c with handles := c.handles.erase h, events := c.events ++ [h] }

def closes (c : Chronicle α) (e : EntryId) : Chronicle α :=
  { c with snapshots := c.snapshots.erase e }

def drops (c : Chronicle α) (ps : List (EntryId × α)) : Chronicle α :=
  { c with dropped := c.dropped ++ ps }

/-- The handles that were deleted, in this order. -/
def deleted (c : Chronicle α) : List EntryId := c.events.filter isHandle

def IsDropped (c : Chronicle α) (h : EntryId) : Prop := h ∈ c.dropped.map (·.1)

/-- A snapshot lives that was made before `h` was deleted. -/
def IsWatched (c : Chronicle α) (h : EntryId) : Prop :=
  ∃ s ∈ c.snapshots, [s, h].Sublist c.events

theorem drops_drops (c : Chronicle α) (ps ps' : List (EntryId × α)) :
    (c.drops ps).drops ps' = c.drops (ps ++ ps') := by
  simp [drops]

theorem drops_nil (c : Chronicle α) : c.drops [] = c := by
  simp [drops]

theorem mem_deleted {c : Chronicle α} : h ∈ c.deleted ↔ h ∈ c.events ∧ isHandle h = true :=
  List.mem_filter

theorem length_deleted (c : Chronicle α) : c.deleted.length = c.events.countP isHandle :=
  List.countP_eq_length_filter.symm

end Chronicle

variable {c : Chronicle α}

/-! ## Payloads -/

/-- Every handle that was made owns its payload until that is dropped, and no payload is dropped
twice. The entries `doomed` are out of use, but their cells are still there. -/
structure Stock (q : Queue α) (doomed : List EntryId) (c : Chronicle α) : Prop where
  past : ∀ e ∈ c.events, Known q e
  born : ∀ p ∈ c.made, Known q p.1 ∧ p.1.isSnapshot = false
  keys : (c.made.map (·.1)).Nodup
  held : ∀ p ∈ c.made, p ∈ c.dropped ∨ Holds q p.1 p.2
  gone : ∀ p ∈ c.dropped, p ∈ c.made ∧ p.1 ∈ c.events ∧ q.cell? p.1.serial = none
  once : (c.dropped.map (·.1)).Nodup
  origin : ∀ h ∈ c.events, isHandle h = true → h ∈ c.made.map (·.1)
  live : ∀ h, h ∈ c.handles ↔ h ∈ c.made.map (·.1) ∧ h ∉ c.events
  liveOnce : c.handles.Nodup
  left : ∀ e ∈ doomed, Stands q e ∧ e ∈ c.events
  leftOnce : doomed.Nodup

namespace Stock

theorem isHandle_of_made (hs : Stock q doomed c) {p : EntryId × α} (hp : p ∈ c.made) :
    isHandle p.1 = true :=
  isHandle_iff.2 (hs.born p hp).2

theorem holds_of_live (hs : Stock q doomed c) (hh : h ∈ c.handles) : ∃ payload, Holds q h payload := by
  obtain ⟨hmade, hnot⟩ := (hs.live h).1 hh
  obtain ⟨p, hp, rfl⟩ := List.mem_map.1 hmade
  rcases hs.held p hp with hdropped | hholds
  · exact absurd (hs.gone p hdropped).2.1 hnot
  · exact ⟨p.2, hholds⟩

theorem not_stands_of_isDropped (hs : Stock q doomed c) (hd : c.IsDropped h) : ¬ Stands q h := by
  obtain ⟨p, hp, rfl⟩ := List.mem_map.1 hd
  rintro ⟨-, cell, hcell, -⟩
  rw [(hs.gone p hp).2.2] at hcell
  cases hcell

theorem mem_made (hs : Stock q doomed c) (hh : Holds q h payload) (hevent : h ∈ c.events) :
    (h, payload) ∈ c.made := by
  have hkind := isHandle_iff.2 hh.2.1
  obtain ⟨⟨h', payload'⟩, hp, hkey⟩ := List.mem_map.1 (hs.origin h hevent hkind)
  obtain rfl : h' = h := hkey
  rcases hs.held _ hp with hdropped | hholds
  · exact absurd hh.stands (hs.not_stands_of_isDropped (List.mem_map_of_mem hdropped))
  · rwa [hh.unique hholds]

theorem congr (hs : Stock q doomed c) (hsame : SameCells q q') : Stock q' doomed c where
  past := fun e he => hsame.known.2 (hs.past e he)
  born := fun p hp => ⟨hsame.known.2 (hs.born p hp).1, (hs.born p hp).2⟩
  keys := hs.keys
  held := fun p hp => (hs.held p hp).imp_right hsame.holds.2
  gone := by
    intro p hp
    obtain ⟨hmade, hevent, hcell⟩ := hs.gone p hp
    exact ⟨hmade, hevent, hsame.stays _ hcell⟩
  once := hs.once
  origin := hs.origin
  live := hs.live
  liveOnce := hs.liveOnce
  left := fun e he => ⟨hsame.stands.2 (hs.left e he).1, (hs.left e he).2⟩
  leftOnce := hs.leftOnce

theorem push (hs : Stock q doomed c) (cell : Cell α) :
    Stock { q with cells := q.cells.push cell } doomed c where
  past := fun e he => (hs.past e he).push cell
  born := fun p hp => ⟨(hs.born p hp).1.push cell, (hs.born p hp).2⟩
  keys := hs.keys
  held := fun p hp => (hs.held p hp).imp_right fun hh => hh.push cell
  gone := by
    intro p hp
    obtain ⟨hmade, hevent, hcell⟩ := hs.gone p hp
    refine ⟨hmade, hevent, ?_⟩
    rw [cell?_create_of_ne q cell (Nat.ne_of_lt (hs.born p hmade).1.2), hcell]
  once := hs.once
  origin := hs.origin
  live := hs.live
  liveOnce := hs.liveOnce
  left := fun e he => ⟨stands_push (hs.left e he).1 cell, (hs.left e he).2⟩
  leftOnce := hs.leftOnce

/-- A cell goes whose entry was out of use, and with it the payload, if it had one. -/
theorem erase (hs : Stock q (e :: doomed) c) {ps : List (EntryId × α)}
    (hps : ∀ p, p ∈ ps ↔ p.1 = e ∧ Holds q p.1 p.2) (honce : (ps.map (·.1)).Nodup) :
    Stock { q with cells := q.cells.erase e.serial } doomed (c.drops ps) := by
  obtain ⟨hstands, hevent⟩ := hs.left e List.mem_cons_self
  obtain ⟨hnot, hrest⟩ := List.nodup_cons.1 hs.leftOnce
  constructor
  case past => exact fun e' he' => (hs.past e' he').erase e.serial
  case born => exact fun p hp => ⟨(hs.born p hp).1.erase e.serial, (hs.born p hp).2⟩
  case keys => exact hs.keys
  case held =>
    intro p hp
    rcases hs.held p hp with hdropped | hholds
    · exact Or.inl (List.mem_append_left _ hdropped)
    · by_cases heq : p.1 = e
      · exact Or.inl (List.mem_append_right _ ((hps p).2 ⟨heq, hholds⟩))
      · exact Or.inr (hholds.erase hstands heq)
  case gone =>
    intro p hp
    rcases List.mem_append.1 hp with hp | hp
    · obtain ⟨hmade, hin, hcell⟩ := hs.gone p hp
      refine ⟨hmade, hin, ?_⟩
      by_cases hserial : p.1.serial = e.serial
      · rw [hserial, cell?_erase_self]
      · rw [cell?_erase_of_ne q hserial, hcell]
    · obtain ⟨heq, hholds⟩ := (hps p).1 hp
      rw [← heq] at hevent ⊢
      exact ⟨hs.mem_made hholds hevent, hevent, cell?_erase_self q p.1.serial⟩
  case once =>
    show ((c.dropped ++ ps).map (·.1)).Nodup
    rw [List.map_append, List.nodup_append]
    refine ⟨hs.once, honce, ?_⟩
    -- What goes now still stood, and what was dropped before stands no more.
    rintro a ha b hb rfl
    obtain ⟨p, hp, rfl⟩ := List.mem_map.1 hb
    rw [((hps p).1 hp).1] at ha
    exact hs.not_stands_of_isDropped ha hstands
  case origin => exact hs.origin
  case live => exact hs.live
  case liveOnce => exact hs.liveOnce
  case left =>
    intro e' he'
    obtain ⟨hstands', hevent'⟩ := hs.left e' (List.mem_cons_of_mem _ he')
    have hne : e' ≠ e := fun heq => hnot (heq ▸ he')
    exact ⟨stands_erase hstands' hstands hne, hevent'⟩
  case leftOnce => exact hrest

/-- Something happens to an entry of the queue. -/
theorem happens {c' : Chronicle α} (hs : Stock q doomed c) (hknown : Known q e)
    (horigin : isHandle e = true → e ∈ c.made.map (·.1)) (hevents : c'.events = c.events ++ [e])
    (hmade : c'.made = c.made) (hdropped : c'.dropped = c.dropped)
    (hlive : ∀ h, h ∈ c'.handles ↔ h ∈ c.handles ∧ h ≠ e) (hliveOnce : c'.handles.Nodup) :
    Stock q doomed c' := by
  refine ⟨?_, ?_, ?_, ?_, ?_, ?_, ?_, ?_, hliveOnce, ?_, hs.leftOnce⟩
  · intro e' he'
    rw [hevents, List.mem_append, List.mem_singleton] at he'
    rcases he' with he' | rfl
    · exact hs.past e' he'
    · exact hknown
  · rw [hmade]
    exact hs.born
  · rw [hmade]
    exact hs.keys
  · rw [hmade, hdropped]
    exact hs.held
  · rw [hmade, hdropped, hevents]
    intro p hp
    obtain ⟨hin, hevent, hcell⟩ := hs.gone p hp
    exact ⟨hin, List.mem_append_left _ hevent, hcell⟩
  · rw [hdropped]
    exact hs.once
  · intro h hh hkind
    rw [hevents, List.mem_append, List.mem_singleton] at hh
    rw [hmade]
    rcases hh with hh | rfl
    · exact hs.origin h hh hkind
    · exact horigin hkind
  · intro h
    rw [hlive, hs.live, hmade, hevents, List.mem_append, List.mem_singleton, not_or, and_assoc]
  · rw [hevents]
    exact fun e' he' => ⟨(hs.left e' he').1, List.mem_append_left _ (hs.left e' he').2⟩

end Stock

/-! ## The whole queue -/

/-- The queue `q` with the chain `xs` is as the chronicle says: the snapshots of the chain are those
that live, and a deleted handle whose payload is not dropped is in the chain or on its way out. -/
structure Kept (q : Queue α) (xs doomed : List EntryId) (c : Chronicle α) : Prop where
  timeline : Timeline q xs c.events
  stock : Stock q doomed c
  live : ∀ e, e ∈ c.snapshots ↔ e ∈ xs ∧ e.isSnapshot = true
  liveOnce : c.snapshots.Nodup
  apart : ∀ e ∈ doomed, e ∉ xs
  settled : ∀ h ∈ c.events, isHandle h = true → h ∈ xs ∨ h ∈ doomed ∨ c.IsDropped h

theorem kept_new (number : Nat) (kind : LockKind) :
    Kept (Queue.new number kind : Queue α) [] [] .empty where
  timeline := timeline_new number kind
  stock := by
    constructor <;> simp [Chronicle.empty]
  live := by simp [Chronicle.empty]
  liveOnce := List.nodup_nil
  apart := by simp
  settled := by simp [Chronicle.empty]

namespace Kept

theorem not_mem_events_of_live (hk : Kept q xs doomed c) (hh : h ∈ c.handles) : h ∉ c.events :=
  ((hk.stock.live h).1 hh).2

theorem mem_made_of_live (hk : Kept q xs doomed c) (hh : h ∈ c.handles) : h ∈ c.made.map (·.1) :=
  ((hk.stock.live h).1 hh).1

theorem isHandle_of_live (hk : Kept q xs doomed c) (hh : h ∈ c.handles) : isHandle h = true := by
  obtain ⟨p, hp, rfl⟩ := List.mem_map.1 (hk.mem_made_of_live hh)
  exact hk.stock.isHandle_of_made hp

theorem perm {doomed' : List EntryId} (hk : Kept q xs doomed c) (hp : doomed.Perm doomed') :
    Kept q xs doomed' c where
  timeline := hk.timeline
  stock := { hk.stock with
    left := fun e he => hk.stock.left e (hp.mem_iff.2 he)
    leftOnce := hp.nodup_iff.1 hk.stock.leftOnce }
  live := hk.live
  liveOnce := hk.liveOnce
  apart := fun e he => hk.apart e (hp.mem_iff.2 he)
  settled := fun h hh hkind => (hk.settled h hh hkind).imp_right (Or.imp_left hp.mem_iff.1)

/-! ### Steps -/

theorem append {c' : Chronicle α} (hk : Kept q xs doomed c) (hstock : Stock q' doomed c')
    (hnew : e ∉ c.events) (ho : Orderly q' (xs ++ [e]))
    (hreclaimed : q'.stats.reclaimed = q.stats.reclaimed) (hevents : c'.events = c.events ++ [e])
    (hdropped : c'.dropped = c.dropped)
    (hlive : ∀ s, s ∈ c'.snapshots ↔ s ∈ c.snapshots ∨ s = e ∧ e.isSnapshot = true)
    (hliveOnce : c'.snapshots.Nodup) : Kept q' (xs ++ [e]) doomed c' := by
  refine ⟨?_, hstock, ?_, hliveOnce, ?_, ?_⟩
  · rw [hevents]
    exact hk.timeline.join hnew ho hreclaimed
  · intro s
    rw [hlive, hk.live, List.mem_append, List.mem_singleton, or_and_right]
    refine or_congr_right (and_congr_right ?_)
    rintro rfl
    exact Iff.rfl
  · intro e' he' hmem
    rcases List.mem_append.1 hmem with hmem | hmem
    · exact hk.apart e' he' hmem
    · rw [List.mem_singleton.1 hmem] at he'
      exact hnew (hk.stock.left _ he').2
  · intro h hh hkind
    unfold Chronicle.IsDropped
    rw [hevents, List.mem_append, List.mem_singleton] at hh
    rw [hdropped, List.mem_append, List.mem_singleton, or_assoc]
    rcases hh with hh | rfl
    · exact (hk.settled h hh hkind).imp_right Or.inr
    · exact Or.inr (Or.inl rfl)

theorem opens (hk : Kept q xs doomed c) :
    ∃ e q', Queue.openSnapshot.run q = .ok e q' ∧ Kept q' (xs ++ [e]) doomed (c.opens e) := by
  obtain ⟨q', hrun, ho, hsame, hstats⟩ := run_openSnapshot hk.timeline.orderly
  have hunknown := not_known_next q true
  have hsnap : (⟨q.number, q.cells.size, true⟩ : EntryId).isSnapshot = true := rfl
  refine ⟨⟨q.number, q.cells.size, true⟩, q', hrun, ?_⟩
  generalize (⟨q.number, q.cells.size, true⟩ : EntryId) = e at *
  have hnew : e ∉ c.events := fun hmem => hunknown (hk.stock.past e hmem)
  have hnotLive : e ∉ c.handles := by
    intro hmem
    obtain ⟨p, hp, rfl⟩ := List.mem_map.1 (hk.mem_made_of_live hmem)
    exact hunknown (hk.stock.born p hp).1
  have hstock : Stock q' doomed (c.opens e) := by
    refine ((hk.stock.push ⟨.snapshot, none, none⟩).congr hsame).happens
      (ho.stands (List.mem_append_right _ List.mem_cons_self)).known ?_ rfl rfl rfl ?_
      hk.stock.liveOnce
    · intro hkind
      rw [isHandle_eq_false hsnap] at hkind
      cases hkind
    · intro h
      refine ⟨fun hh => ⟨hh, ?_⟩, fun hh => hh.1⟩
      rintro rfl
      exact hnotLive hh
  refine hk.append hstock hnew ho (by rw [hstats]) rfl rfl ?_ ?_
  · intro s
    show s ∈ e :: c.snapshots ↔ _
    rw [List.mem_cons, or_comm, and_iff_left hsnap]
  · refine List.nodup_cons.2 ⟨fun hmem => hnew ?_, hk.liveOnce⟩
    exact hk.timeline.sub.subset ((hk.live e).1 hmem).1

theorem makes (hk : Kept q xs doomed c) (payload : α) :
    ∃ h q', (Queue.newHandle payload).run q = .ok h q' ∧ Kept q' xs doomed (c.makes h payload) := by
  have hunknown := not_known_next q false
  have hholds : Holds { q with cells := q.cells.push ⟨.handle payload, none, none⟩ }
      ⟨q.number, q.cells.size, false⟩ payload :=
    ⟨rfl, rfl, congrArg (Option.map (·.content)) (Arena.get?_push_size q.cells _)⟩
  refine ⟨_, _, Queue.run_create q (.handle payload), ?_⟩
  show Kept _ xs doomed (c.makes ⟨q.number, q.cells.size, false⟩ payload)
  generalize (⟨q.number, q.cells.size, false⟩ : EntryId) = h at *
  have hnew : h ∉ c.events := fun hmem => hunknown (hk.stock.past h hmem)
  have hnotMade : h ∉ c.made.map (·.1) := by
    intro hmem
    obtain ⟨p, hp, rfl⟩ := List.mem_map.1 hmem
    exact hunknown (hk.stock.born p hp).1
  have hpush := hk.stock.push (⟨.handle payload, none, none⟩ : Cell α)
  refine ⟨?_, ?_, hk.live, hk.liveOnce, hk.apart, hk.settled⟩
  · exact { hk.timeline with orderly := hk.timeline.orderly.push _ }
  · refine ⟨hpush.past, ?_, List.nodup_cons.2 ⟨hnotMade, hpush.keys⟩, ?_, ?_, hpush.once, ?_, ?_, ?_,
      hpush.left, hpush.leftOnce⟩
    · intro p hp
      rcases List.mem_cons.1 hp with rfl | hp
      · exact ⟨hholds.stands.known, hholds.2.1⟩
      · exact hpush.born p hp
    · intro p hp
      rcases List.mem_cons.1 hp with rfl | hp
      · exact Or.inr hholds
      · exact hpush.held p hp
    · intro p hp
      obtain ⟨hmade, hrest⟩ := hpush.gone p hp
      exact ⟨List.mem_cons_of_mem _ hmade, hrest⟩
    · intro h' hh' hkind
      exact List.mem_cons_of_mem _ (hpush.origin h' hh' hkind)
    · intro h'
      show h' ∈ h :: c.handles ↔ h' ∈ h :: c.made.map (·.1) ∧ h' ∉ c.events
      rw [List.mem_cons, List.mem_cons, hk.stock.live]
      constructor
      · rintro (rfl | ⟨hmade, hnot⟩)
        · exact ⟨Or.inl rfl, hnew⟩
        · exact ⟨Or.inr hmade, hnot⟩
      · rintro ⟨rfl | hmade, hnot⟩
        · exact Or.inl rfl
        · exact Or.inr ⟨hmade, hnot⟩
    · exact List.nodup_cons.2 ⟨fun hmem => hnotMade (hk.mem_made_of_live hmem), hk.stock.liveOnce⟩

/-- The deletion of a live handle, as far as its payload does not depend on it. -/
theorem stock_deletes (hk : Kept q xs doomed c) (hh : h ∈ c.handles) :
    Stock q doomed (c.deletes h) := by
  obtain ⟨payload, hholds⟩ := hk.stock.holds_of_live hh
  refine hk.stock.happens hholds.stands.known (fun _ => hk.mem_made_of_live hh) rfl rfl rfl ?_
    (hk.stock.liveOnce.erase h)
  intro h'
  show h' ∈ c.handles.erase h ↔ _
  rw [hk.stock.liveOnce.mem_erase_iff, and_comm]

/-- A handle that is deleted while the chain is not empty joins it. -/
theorem joins (hk : Kept q xs doomed c) (hh : h ∈ c.handles) (hne : xs ≠ []) :
    ∃ q', (Queue.locked (Queue.appendIfWatched h)).run q = .ok true q' ∧
      Kept q' (xs ++ [h]) doomed (c.deletes h) := by
  obtain ⟨payload, hholds⟩ := hk.stock.holds_of_live hh
  have hnew := hk.not_mem_events_of_live hh
  have hkind := hholds.2.1
  obtain ⟨q', hrun, ho, hsame, hreclaimed⟩ := run_appendIfWatched hk.timeline.orderly hne
    hholds.stands hkind fun hmem => hnew (hk.timeline.sub.subset hmem)
  refine ⟨q', hrun, hk.append ((hk.stock_deletes hh).congr hsame) hnew ho hreclaimed rfl rfl ?_
    hk.liveOnce⟩
  intro s
  refine ⟨Or.inl, fun hs => hs.resolve_right ?_⟩
  rintro ⟨-, hsnap⟩
  rw [hkind] at hsnap
  cases hsnap

/-- A handle that is deleted while the chain is empty is on its way out. -/
theorem passes (hk : Kept q [] doomed c) (hh : h ∈ c.handles) :
    Kept q [] (h :: doomed) (c.deletes h) := by
  obtain ⟨payload, hholds⟩ := hk.stock.holds_of_live hh
  have hnew := hk.not_mem_events_of_live hh
  have hstock := hk.stock_deletes hh
  refine ⟨hk.timeline.pass hnew, ?_, hk.live, hk.liveOnce, fun e _ => List.not_mem_nil, ?_⟩
  · exact { hstock with
      left := by
        intro e he
        rcases List.mem_cons.1 he with rfl | he
        · exact ⟨hholds.stands, List.mem_append_right _ List.mem_cons_self⟩
        · exact hstock.left e he
      leftOnce := List.nodup_cons.2 ⟨fun hmem => hnew (hk.stock.left h hmem).2, hstock.leftOnce⟩ }
  · intro h' hh' hkind
    refine Or.inr ?_
    rcases List.mem_append.1 hh' with hh' | hh'
    · exact ((hk.settled h' hh' hkind).resolve_left List.not_mem_nil).imp_left
        (List.mem_cons_of_mem _)
    · exact Or.inl (List.mem_cons.2 (Or.inl (List.mem_singleton.1 hh')))

/-- The cell of an entry on its way out goes, with the payload that it may have. -/
theorem erase (hk : Kept q xs (e :: doomed) c) {ps : List (EntryId × α)}
    (hps : ∀ p, p ∈ ps ↔ p.1 = e ∧ Holds q p.1 p.2) (honce : (ps.map (·.1)).Nodup) :
    Kept { q with cells := q.cells.erase e.serial } xs doomed (c.drops ps) := by
  obtain ⟨hstands, -⟩ := hk.stock.left e List.mem_cons_self
  have ho := hk.timeline.orderly.erase hstands (hk.apart e List.mem_cons_self)
  refine ⟨{ hk.timeline with orderly := ho }, hk.stock.erase hps honce, hk.live, hk.liveOnce,
    fun e' he' => hk.apart e' (List.mem_cons_of_mem _ he'), ?_⟩
  intro h hh hkind
  unfold Chronicle.IsDropped
  rw [show (c.drops ps).dropped = c.dropped ++ ps from rfl, List.map_append, List.mem_append]
  rcases hk.settled h hh hkind with hin | hout | hdropped
  · exact Or.inl hin
  · rcases List.mem_cons.1 hout with rfl | hout
    · obtain ⟨payload, hholds⟩ := exists_holds hstands hkind
      exact Or.inr (Or.inr (Or.inr (List.mem_map.2 ⟨(h, payload), (hps _).2 ⟨rfl, hholds⟩, rfl⟩)))
    · exact Or.inr (Or.inl hout)
  · exact Or.inr (Or.inr (Or.inl hdropped))

theorem takes (hk : Kept q xs (h :: doomed) c) (hkind : isHandle h = true) :
    ∃ payload q', (Queue.takePayload h).run q = .ok payload q' ∧
      Kept q' xs doomed (c.drops [(h, payload)]) := by
  obtain ⟨payload, hholds⟩ := exists_holds (hk.stock.left h List.mem_cons_self).1 hkind
  refine ⟨payload, _, run_takePayload hholds, hk.erase ?_ (List.nodup_singleton h)⟩
  intro p
  rw [List.mem_singleton]
  constructor
  · rintro rfl
    exact ⟨rfl, hholds⟩
  · obtain ⟨h', payload'⟩ := p
    rintro ⟨rfl, hholds'⟩
    rw [hholds.unique hholds']

theorem frees (hk : Kept q xs (e :: doomed) c) (hsnap : e.isSnapshot = true) :
    ∃ content q', (Queue.destroy e.serial).run q = .ok content q' ∧ Kept q' xs doomed c := by
  obtain ⟨content, hrun⟩ := run_destroy_of_stands (hk.stock.left e List.mem_cons_self).1
  have hnone : ∀ p : EntryId × α, p ∈ ([] : List (EntryId × α)) ↔ p.1 = e ∧ Holds q p.1 p.2 := by
    refine fun p => ⟨fun hp => absurd hp List.not_mem_nil, ?_⟩
    rintro ⟨rfl, -, hkind, -⟩
    rw [hsnap] at hkind
    cases hkind
  have herase := hk.erase hnone List.nodup_nil
  rw [Chronicle.drops_nil] at herase
  exact ⟨content, _, hrun, herase⟩

/-- What is left of the chain when a snapshot leaves it. -/
theorem leave (hk : Kept q xs doomed c) (he : e ∈ c.snapshots) (ho : Orderly q' (staying xs e))
    (hsame : SameCells q q')
    (hreclaimed : q'.stats.reclaimed ≤ q.stats.reclaimed + (leaving xs e).length) :
    Kept q' (staying xs e) (leaving xs e ++ e :: doomed) (c.closes e) := by
  obtain ⟨hin, hsnap⟩ := (hk.live e).1 he
  have hnodup := hk.timeline.orderly.nodup
  have hstock := hk.stock.congr hsame
  have hout : ∀ e' ∈ leaving xs e ++ e :: doomed, e' ∉ staying xs e := by
    intro e' he'
    rcases List.mem_append.1 he' with he' | he'
    · exact not_mem_staying_of_leaving hnodup he'
    · rcases List.mem_cons.1 he' with rfl | he'
      · exact self_not_mem_staying hnodup
      · exact fun hmem => hk.apart e' he' ((staying_sublist xs e).subset hmem)
  have hfrom : ∀ e' ∈ xs, Stands q' e' ∧ e' ∈ c.events := fun e' he' =>
    ⟨hsame.stands.2 (hk.timeline.orderly.stands he'), hk.timeline.sub.subset he'⟩
  refine ⟨hk.timeline.leave hin hsnap ho hreclaimed, ?_, ?_, hk.liveOnce.erase e, hout, ?_⟩
  -- What leaves was in the chain, so nothing of it was on its way out already.
  · exact { hstock with
      left := by
        intro e' he'
        rcases List.mem_append.1 he' with he' | he'
        · exact hfrom e' ((leaving_sublist xs e).subset he')
        · rcases List.mem_cons.1 he' with rfl | he'
          · exact hfrom e' hin
          · exact hstock.left e' he'
      leftOnce := by
        refine List.nodup_append.2 ⟨(leaving_sublist xs e).nodup hnodup,
          List.nodup_cons.2 ⟨fun hmem => hk.apart e hmem hin, hstock.leftOnce⟩, ?_⟩
        rintro a ha b hb rfl
        rcases List.mem_cons.1 hb with rfl | hb
        · exact not_mem_leaving hsnap ha
        · exact hk.apart a hb ((leaving_sublist xs e).subset ha) }
  · intro s
    show s ∈ c.snapshots.erase e ↔ _
    rw [hk.liveOnce.mem_erase_iff, hk.live]
    constructor
    · rintro ⟨hne, hs, hkind⟩
      exact ⟨(mem_leaving_or_staying hs hne).resolve_left (not_mem_leaving hkind), hkind⟩
    · rintro ⟨hs, hkind⟩
      refine ⟨?_, (staying_sublist xs e).subset hs, hkind⟩
      rintro rfl
      exact self_not_mem_staying hnodup hs
  · intro h hh hkind
    have hne := ne_of_isHandle hkind hsnap
    rw [List.mem_append, List.mem_cons]
    rcases hk.settled h hh hkind with hin | hdoomed | hdropped
    · rcases mem_leaving_or_staying hin hne with hleave | hstay
      · exact Or.inr (Or.inl (Or.inl hleave))
      · exact Or.inl hstay
    · exact Or.inr (Or.inl (Or.inr (Or.inr hdoomed)))
    · exact Or.inr (Or.inr hdropped)

/-- A snapshot leaves the chain, and what leaves with it is on its way out. -/
theorem leaves (hk : Kept q xs doomed c) (he : e ∈ c.snapshots) :
    Leaves (Queue.locked (Queue.removeSnapshot e)) q
      (fun gone q' => gone = leaving xs e ∧
        Kept q' (staying xs e) (gone ++ e :: doomed) (c.closes e))
      fun _ q' => Kept q' (staying xs e) (leaving xs e ++ e :: doomed) (c.closes e) ∧
        wordBound ≤ c.deleted.length := by
  obtain ⟨hin, hsnap⟩ := (hk.live e).1 he
  refine (leaves_removeSnapshot hk.timeline.orderly hin hsnap).mono ?_ ?_
  · intro gone q' hafter
    obtain ⟨rfl, ho, hsame, hreclaimed⟩ := hafter
    exact ⟨rfl, hk.leave he ho hsame (Nat.le_of_eq hreclaimed)⟩
  · intro _ q' hafter
    obtain ⟨-, ho, hsame, hreclaimed, hword⟩ := hafter
    refine ⟨hk.leave he ho hsame (by omega), ?_⟩
    have hcounted := hk.timeline.counted
    have hcount := countP_staying hin hsnap
    rw [Chronicle.length_deleted]
    omega

/-! ### What follows -/

/-- A deleted handle is in the chain as long as its payload is not dropped. -/
theorem mem_chain_iff (hk : Kept q xs [] c) (hh : h ∈ c.deleted) : h ∈ xs ↔ ¬ c.IsDropped h := by
  obtain ⟨hevent, hkind⟩ := Chronicle.mem_deleted.1 hh
  constructor
  · intro hin hd
    exact hk.stock.not_stands_of_isDropped hd (hk.timeline.orderly.stands hin)
  · exact fun hd => (hk.settled h hevent hkind).resolve_right (not_or.2 ⟨List.not_mem_nil, hd⟩)

/-- Where neither the chain nor a call holds anything, every deleted payload was dropped once. -/
theorem count_dropped_eq_one (hk : Kept q [] [] c) (hh : h ∈ c.deleted) :
    (c.dropped.map (·.1)).count h = 1 := by
  have hd : c.IsDropped h := by
    by_contra hnot
    exact List.not_mem_nil ((hk.mem_chain_iff hh).2 hnot)
  exact List.count_eq_one_of_mem hk.stock.once hd

/-- Only payloads of deleted handles are dropped. -/
theorem made_and_deleted (hk : Kept q xs doomed c) {p : EntryId × α} (hp : p ∈ c.dropped) :
    p ∈ c.made ∧ p.1 ∈ c.deleted := by
  obtain ⟨hmade, hevent, -⟩ := hk.stock.gone p hp
  exact ⟨hmade, Chronicle.mem_deleted.2 ⟨hevent, hk.stock.isHandle_of_made hmade⟩⟩

theorem snapshots_perm (hk : Kept q xs doomed c) : c.snapshots.Perm (xs.filter (·.isSnapshot)) := by
  apply (List.perm_ext_iff_of_nodup hk.liveOnce (hk.timeline.orderly.nodup.filter _)).2
  intro e
  rw [hk.live, List.mem_filter]

/-- A payload stays while a snapshot lives that was made before the deletion. -/
theorem undropped_of_watched (hk : Kept q xs doomed c) (hh : h ∈ c.deleted)
    (hw : c.IsWatched h) : ¬ c.IsDropped h := by
  obtain ⟨hevent, hkind⟩ := Chronicle.mem_deleted.1 hh
  obtain ⟨s, hs, hbefore⟩ := hw
  obtain ⟨hin, hsnap⟩ := (hk.live s).1 hs
  have hmem := (hk.timeline.exists_before_iff hevent hkind).2 ⟨s, hin, hsnap, hbefore⟩
  exact fun hd => hk.stock.not_stands_of_isDropped hd (hk.timeline.orderly.stands hmem)

/-- A payload that stays and is not on its way out waits for a snapshot. -/
theorem watched_of_undropped (hk : Kept q xs doomed c) (hh : h ∈ c.deleted)
    (hd : ¬ c.IsDropped h) (hout : h ∉ doomed) : c.IsWatched h := by
  obtain ⟨hevent, hkind⟩ := Chronicle.mem_deleted.1 hh
  have hmem := (hk.settled h hevent hkind).resolve_right (not_or.2 ⟨hout, hd⟩)
  obtain ⟨s, hs, hsnap, hbefore⟩ := (hk.timeline.exists_before_iff hevent hkind).1 hmem
  exact ⟨s, (hk.live s).2 ⟨hs, hsnap⟩, hbefore⟩

theorem undropped_of_live (hk : Kept q xs doomed c) (hh : h ∈ c.handles) : ¬ c.IsDropped h := by
  intro hd
  obtain ⟨p, hp, rfl⟩ := List.mem_map.1 hd
  exact hk.not_mem_events_of_live hh (hk.stock.gone p hp).2.1

theorem chain_eq_nil_iff (hk : Kept q xs doomed c) : xs = [] ↔ c.snapshots = [] := by
  constructor
  · rintro rfl
    apply List.eq_nil_iff_forall_not_mem.2
    intro e he
    exact List.not_mem_nil ((hk.live e).1 he).1
  · intro hnone
    by_contra hne
    obtain ⟨e, rest, rfl⟩ := List.exists_cons_of_ne_nil hne
    have he := (hk.live e).2 ⟨List.mem_cons_self, hk.timeline.orderly.oldest e rfl⟩
    rw [hnone] at he
    exact List.not_mem_nil he

theorem isEmpty_iff (hk : Kept q xs doomed c) : q.isEmpty = true ↔ c.snapshots = [] := by
  rw [hk.timeline.orderly.isEmpty_eq, List.isEmpty_iff, hk.chain_eq_nil_iff]

theorem live_or_deleted (hk : Kept q xs doomed c) (hh : h ∈ c.made.map (·.1)) :
    h ∈ c.handles ∨ h ∈ c.deleted := by
  by_cases hevent : h ∈ c.events
  · obtain ⟨p, hp, rfl⟩ := List.mem_map.1 hh
    exact Or.inr (Chronicle.mem_deleted.2 ⟨hevent, hk.stock.isHandle_of_made hp⟩)
  · exact Or.inl ((hk.stock.live h).2 ⟨hh, hevent⟩)

end Kept
end RopeStore.Deferral
