import Mathlib.Data.List.Basic
import RopeStore.Proofs.Deferral.Chronicle

/-!
# One thread and its queue

* `Session` : a queue with one client that performs one operation after the other;
* `Session.Act`, `Session.step`, `Session.run` : what the client can do. Whoever names a handle or a
  snapshot that does not live does nothing;
* `Session.Sound` : what every act keeps. What a fault leaves behind is only there after as many
  deletions as a word can count;
* `payload_dropped_unless_watched` : the payload of a deleted handle is there exactly as long as a
  snapshot lives that was made before the deletion.
-/

namespace RopeStore.Deferral
variable {α : Type} {q q' : Queue α} {xs doomed hs : List EntryId} {e h : EntryId}
  {c : Chronicle α}

/-! ## The operations -/

namespace Kept

/-- All payloads that are on their way out are handed out, in their order. -/
theorem ends_takePayloads (hk : Kept q xs (hs ++ doomed) c) (hhs : ∀ h ∈ hs, isHandle h = true) :
    Ends (hs.mapM fun handle => return (handle, ← Queue.takePayload handle)) q
      fun taken q' => Kept q' xs doomed (c.drops taken) := by
  induction hs generalizing q c with
  | nil =>
    apply ends_of_run_eq_ok (a := []) rfl
    rwa [Chronicle.drops_nil]
  | cons h rest ih =>
    obtain ⟨payload, q', hrun, hk'⟩ := hk.takes (hhs h List.mem_cons_self)
    have hfirst : (do return (h, ← Queue.takePayload h) : QueueM α (EntryId × α)).run q =
        .ok (h, payload) q' := by
      rw [run_bind_of_run_eq_ok hrun]
      rfl
    rw [List.mapM_cons, ends_bind_of_run_eq_ok hfirst]
    apply (ih hk' fun h' hh' => hhs h' (List.mem_cons_of_mem _ hh')).bind
    intro taken q'' hk''
    rw [Chronicle.drops_drops] at hk''
    exact hk''

theorem ends_delete (hk : Kept q xs doomed c) (hh : h ∈ c.handles) :
    Ends (Queue.delete h) q fun taken q' =>
      ∃ xs', Kept q' xs' doomed ((c.deletes h).drops (taken.toList.map (h, ·))) := by
  have hempty := hk.timeline.orderly.isEmpty_eq
  unfold Queue.delete
  rw [ends_bind_of_run_eq_ok (EStateM.run_get q), hempty]
  rcases xs with _ | ⟨x, rest⟩
  · obtain ⟨payload, q', hrun, hk'⟩ := (hk.passes hh).takes (hk.isHandle_of_live hh)
    show Ends (Queue.takePayload h >>= _ : QueueM α _) q _
    rw [ends_bind_of_run_eq_ok hrun]
    exact ⟨[], hk'⟩
  · obtain ⟨q', hrun, hk'⟩ := hk.joins hh (List.cons_ne_nil x rest)
    show Ends (Queue.locked (Queue.appendIfWatched h) >>= _ : QueueM α _) q _
    rw [ends_bind_of_run_eq_ok hrun]
    refine ⟨(x :: rest) ++ [h], ?_⟩
    rw [Option.toList_none, List.map_nil, Chronicle.drops_nil]
    exact hk'

/-- Only a count that is full makes the drop of a snapshot fault, and then payloads are lost. -/
theorem leaves_dropSnapshot (hk : Kept q xs doomed c) (he : e ∈ c.snapshots) :
    Leaves (Queue.dropSnapshot e) q
      (fun taken q' => ∃ xs', Kept q' xs' doomed ((c.closes e).drops taken))
      fun _ q' => (∃ xs' lost, Kept q' xs' lost (c.closes e)) ∧ wordBound ≤ c.deleted.length := by
  unfold Queue.dropSnapshot
  refine Leaves.bind ((hk.leaves he).mono (fun _ _ hgood => hgood)
    fun _ _ hbad => ⟨⟨_, _, hbad.1⟩, hbad.2⟩) ?_
  intro gone mid hafter
  obtain ⟨rfl, hmid⟩ := hafter
  apply Leaves.bind (hmid.ends_takePayloads fun h hh => isHandle_of_leaving hh).leaves
  intro taken q₁ hk₁
  obtain ⟨content, q₂, hrun, hk₂⟩ := hk₁.frees ((hk.live e).1 he).2
  rw [leaves_bind_of_run_eq_ok hrun]
  exact ⟨staying xs e, hk₂⟩

theorem ends_dropSnapshot (hk : Kept q xs doomed c) (he : e ∈ c.snapshots)
    (hword : c.deleted.length < wordBound) :
    Ends (Queue.dropSnapshot e) q fun taken q' =>
      ∃ xs', Kept q' xs' doomed ((c.closes e).drops taken) :=
  (hk.leaves_dropSnapshot he).mono (fun _ _ hgood => hgood) fun _ _ hbad =>
    absurd hbad.2 (Nat.not_le_of_lt hword)

end Kept

/-! ## Sessions -/

/-- A queue with the only client that it has. -/
structure Session (α : Type) where
  queue : Queue α
  chronicle : Chronicle α
  faults : List Fault

namespace Session

inductive Act (α : Type)
  | openSnapshot
  | newHandle (payload : α)
  | deleteHandle (h : EntryId)
  | dropSnapshot (e : EntryId)

def start (number : Nat) (kind : LockKind) : Session α := ⟨.new number kind, .empty, []⟩

/-- The session after an operation with this end. -/
def after {β : Type} (s : Session α) (c : β → Chronicle α) (failed : Chronicle α) :
    EStateM.Result Fault (Queue α) β → Session α
  | .ok answer queue => { s with queue, chronicle := c answer }
  | .error fault queue => ⟨queue, failed, fault :: s.faults⟩

/-- One act. A fault does not give back what was handed over. -/
def step (s : Session α) : Act α → Session α
  | .openSnapshot =>
    s.after s.chronicle.opens s.chronicle (Queue.openSnapshot.run s.queue)
  | .newHandle payload =>
    s.after (s.chronicle.makes · payload) s.chronicle ((Queue.newHandle payload).run s.queue)
  | .deleteHandle h =>
    if h ∈ s.chronicle.handles then
      s.after (fun taken => (s.chronicle.deletes h).drops (taken.toList.map (h, ·)))
        (s.chronicle.deletes h) ((Queue.delete h).run s.queue)
    else s
  | .dropSnapshot e =>
    if e ∈ s.chronicle.snapshots then
      s.after (fun taken => (s.chronicle.closes e).drops taken) (s.chronicle.closes e)
        ((Queue.dropSnapshot e).run s.queue)
    else s

def run (s : Session α) (acts : List (Act α)) : Session α := acts.foldl step s

/-- The chronicle is right. What was lost in a fault was lost after as many deletions as a word can
count. -/
def Sound (s : Session α) : Prop :=
  ∃ xs lost, Kept s.queue xs lost s.chronicle ∧
    (lost = [] ∧ s.faults = [] ∨ wordBound ≤ s.chronicle.deleted.length)

variable {s : Session α}

theorem sound_start (number : Nat) (kind : LockKind) : (start number kind : Session α).Sound :=
  ⟨[], [], kept_new number kind, Or.inl ⟨rfl, rfl⟩⟩

theorem after_of_leaves {β : Type} {op : QueueM α β} {c : β → Chronicle α} {failed : Chronicle α}
    {p : Session α → Prop}
    (hop : Leaves op s.queue (fun answer queue => p { s with queue, chronicle := c answer })
      fun fault queue => p ⟨queue, failed, fault :: s.faults⟩) :
    p (s.after c failed (op.run s.queue)) := by
  unfold Leaves at hop
  split at hop <;> rename_i heq <;> rw [heq] <;> exact hop

theorem chronicle_after {β : Type} {c : β → Chronicle α} {failed : Chronicle α}
    {p : Chronicle α → Prop} (hgood : ∀ b, p (c b)) (hbad : p failed)
    (outcome : EStateM.Result Fault (Queue α) β) : p (s.after c failed outcome).chronicle := by
  cases outcome with
  | ok b queue => exact hgood b
  | error fault queue => exact hbad

/-- What the chronicle `c` can be after an act. -/
inductive Notes (c : Chronicle α) : Act α → Chronicle α → Prop
  | same (act : Act α) : Notes c act c
  | opens (e : EntryId) : Notes c .openSnapshot (c.opens e)
  | makes (h : EntryId) (payload : α) : Notes c (.newHandle payload) (c.makes h payload)
  | deletes (h : EntryId) (ps : List (EntryId × α)) :
    Notes c (.deleteHandle h) ((c.deletes h).drops ps)
  | closes (e : EntryId) (ps : List (EntryId × α)) :
    Notes c (.dropSnapshot e) ((c.closes e).drops ps)

theorem notes_step (s : Session α) (act : Act α) : Notes s.chronicle act (s.step act).chronicle := by
  cases act with
  | openSnapshot => exact chronicle_after .opens (.same _) _
  | newHandle payload => exact chronicle_after (.makes · payload) (.same _) _
  | deleteHandle h =>
    rw [Session.step]
    split
    · refine chronicle_after (fun _ => .deletes h _) ?_ _
      exact Chronicle.drops_nil (s.chronicle.deletes h) ▸ .deletes h []
    · exact .same _
  | dropSnapshot e =>
    rw [Session.step]
    split
    · refine chronicle_after (fun _ => .closes e _) ?_ _
      exact Chronicle.drops_nil (s.chronicle.closes e) ▸ .closes e []
    · exact .same _

theorem Sound.step (hs : s.Sound) (act : Act α) : (s.step act).Sound := by
  obtain ⟨xs, lost, hk, hlost⟩ := hs
  cases act with
  | openSnapshot =>
    obtain ⟨e, q', hrun, hk'⟩ := hk.opens
    refine after_of_leaves (p := Sound) (leaves_of_run_eq_ok hrun ⟨_, lost, hk', hlost.imp_right ?_⟩)
    intro hword
    refine hword.trans ?_
    rw [Chronicle.length_deleted, Chronicle.length_deleted]
    exact List.Sublist.countP_le (List.sublist_append_left _ _)
  | newHandle payload =>
    obtain ⟨h, q', hrun, hk'⟩ := hk.makes payload
    exact after_of_leaves (p := Sound) (leaves_of_run_eq_ok hrun ⟨xs, lost, hk', hlost⟩)
  | deleteHandle h =>
    by_cases hh : h ∈ s.chronicle.handles
    · rw [Session.step, if_pos hh]
      refine after_of_leaves (p := Sound) ((hk.ends_delete hh).mono ?_).leaves
      intro taken q' hafter
      obtain ⟨xs', hk'⟩ := hafter
      refine ⟨xs', lost, hk', hlost.imp_right fun hword => hword.trans ?_⟩
      rw [Chronicle.length_deleted, Chronicle.length_deleted]
      exact List.Sublist.countP_le (List.sublist_append_left _ _)
    · rw [Session.step, if_neg hh]
      exact ⟨xs, lost, hk, hlost⟩
  | dropSnapshot e =>
    by_cases he : e ∈ s.chronicle.snapshots
    · rw [Session.step, if_pos he]
      refine after_of_leaves (p := Sound) ((hk.leaves_dropSnapshot he).mono ?_ ?_)
      · intro taken q' hafter
        obtain ⟨xs', hk'⟩ := hafter
        exact ⟨xs', lost, hk', hlost⟩
      · intro fault q' hafter
        obtain ⟨⟨xs', lost', hk'⟩, hword⟩ := hafter
        exact ⟨xs', lost', hk', Or.inr hword⟩
    · rw [Session.step, if_neg he]
      exact ⟨xs, lost, hk, hlost⟩

theorem Sound.run (hs : s.Sound) (acts : List (Act α)) : (s.run acts).Sound := by
  induction acts generalizing s with
  | nil => exact hs
  | cons act rest ih => exact ih (hs.step act)

/-- **After every act of every client, the payload of a deleted handle is there exactly as long as a
snapshot lives that was made before the deletion; all other payloads are there; none is dropped
twice; and the queue is empty if and only if no snapshot lives.** Faults and lost payloads take as
many deletions as a word can count. -/
theorem payload_dropped_unless_watched (number : Nat) (kind : LockKind) (acts : List (Act α)) :
    let s := (start number kind).run acts
    (∀ h ∈ s.chronicle.deleted, s.chronicle.IsWatched h → ¬ s.chronicle.IsDropped h) ∧
    (s.chronicle.deleted.length < wordBound → s.faults = [] ∧
      ∀ h ∈ s.chronicle.deleted, ¬ s.chronicle.IsDropped h → s.chronicle.IsWatched h) ∧
    (∀ h ∈ s.chronicle.handles, ¬ s.chronicle.IsDropped h) ∧
    (∀ p ∈ s.chronicle.made, (p.1 ∈ s.chronicle.handles ∨ p.1 ∈ s.chronicle.deleted) ∧
      (p ∈ s.chronicle.dropped ∨ Holds s.queue p.1 p.2)) ∧
    (s.chronicle.dropped.map (·.1)).Nodup ∧ (∀ p ∈ s.chronicle.dropped, p ∈ s.chronicle.made) ∧
    (s.queue.isEmpty = true ↔ s.chronicle.snapshots = []) := by
  intro s
  obtain ⟨xs, lost, hk, hlost⟩ := (sound_start number kind).run acts
  refine ⟨fun h hh => hk.undropped_of_watched hh, ?_, fun h hh => hk.undropped_of_live hh, ?_,
    hk.stock.once, fun p hp => (hk.stock.gone p hp).1, hk.isEmpty_iff⟩
  · intro hword
    obtain ⟨rfl, hfaults⟩ := hlost.resolve_right (Nat.not_le_of_lt hword)
    exact ⟨hfaults, fun h hh hd => hk.watched_of_undropped hh hd List.not_mem_nil⟩
  · exact fun p hp => ⟨hk.live_or_deleted (List.mem_map_of_mem hp), hk.stock.held p hp⟩

end Session
end RopeStore.Deferral
