import Mathlib.Data.List.Basic
import Mathlib.Data.List.Perm.Basic
import RopeStore.Proofs.Deferral.Chronicle

/-!
# Threads that share a queue

Threads perform operations on one queue at the same time. An operation is a sequence of atomic steps:
a look at the newest cell, a section under the lock, or the destruction of one cell; between two of
them the other threads may do anything.

* `Task` : what a thread is about to do;
* `World`, `World.Move`, `World.step`, `World.run` : the threads with their queue, an atomic step of
  one of them, and a schedule. A handle counts as deleted from the step on that decides what becomes of
  its payload: the look that found the chain empty, or the section under the lock;
* `Works` : what every step keeps. The threads are a multiset there;
* `payloads_outlive_watchers` : what holds after every schedule.
-/

namespace RopeStore.Deferral
variable {α β : Type}

/-- What a thread is about to do. -/
inductive Task
  | idle
  /-- To look again under the lock, and to put the handle `h` into the chain. -/
  | deleting (h : EntryId)
  /-- To destroy the payloads of `handles`, and then the cell of the snapshot `own`. -/
  | destroying (handles : List EntryId) (own : Option EntryId)
  | stopped
  deriving DecidableEq

namespace Task

/-- The handle whose fate is not decided yet. -/
def deciding : Task → List EntryId
  | .deleting h => [h]
  | _ => []

/-- The entries whose cells the thread is about to destroy. -/
def doomed : Task → List EntryId
  | .destroying handles own => handles ++ own.toList
  | _ => []

/-- What is destroyed as a payload is a handle, and what is destroyed as a snapshot is one. -/
def Formed : Task → Prop
  | .destroying handles own =>
    (∀ h ∈ handles, isHandle h = true) ∧ ∀ e ∈ own, e.isSnapshot = true
  | _ => True

end Task

/-- Threads and the queue that they share. -/
structure World (α : Type) where
  queue : Queue α
  tasks : List Task
  chronicle : Chronicle α

namespace World

/-- An atomic step of a thread. The last one goes on with an operation, the others begin one. -/
inductive Move (α : Type)
  | openSnapshot
  | newHandle (payload : α)
  /-- Looks at the newest cell on behalf of the handle `h`. -/
  | deleteHandle (h : EntryId)
  /-- Takes the snapshot `e` out of the chain. -/
  | dropSnapshot (e : EntryId)
  | proceed

def start (threads number : Nat) (kind : LockKind) : World α :=
  ⟨.new number kind, .replicate threads .idle, .empty⟩

def deciding (w : World α) : List EntryId := w.tasks.flatMap Task.deciding

/-- The world after thread `i` did a step with this end. A fault stops the thread. -/
def after (w : World α) (i : Nat) (next : β → Task) (c : β → Chronicle α) (failed : Chronicle α) :
    EStateM.Result Fault (Queue α) β → World α
  | .ok answer queue => ⟨queue, w.tasks.set i (next answer), c answer⟩
  | .error _ queue => ⟨queue, w.tasks.set i .stopped, failed⟩

/-- The thread `i` begins an operation. Handles and snapshots that do not live, or that another
thread is about to delete, are nobody's. -/
def begin (w : World α) (i : Nat) : Move α → World α
  | .openSnapshot =>
    w.after i (fun _ => .idle) w.chronicle.opens w.chronicle (Queue.openSnapshot.run w.queue)
  | .newHandle payload =>
    w.after i (fun _ => .idle) (w.chronicle.makes · payload) w.chronicle
      ((Queue.newHandle payload).run w.queue)
  | .deleteHandle h =>
    if h ∈ w.chronicle.handles ∧ h ∉ w.deciding then
      if w.queue.isEmpty then
        { w with tasks := w.tasks.set i (.destroying [h] none), chronicle := w.chronicle.deletes h }
      else { w with tasks := w.tasks.set i (.deleting h) }
    else w
  | .dropSnapshot e =>
    if e ∈ w.chronicle.snapshots then
      w.after i (.destroying · (some e)) (fun _ => w.chronicle.closes e) (w.chronicle.closes e)
        ((Queue.locked (Queue.removeSnapshot e)).run w.queue)
    else w
  | .proceed => w

def proceed (w : World α) (i : Nat) : Task → World α
  | .deleting h =>
    w.after i (fun appended => if appended then .idle else .destroying [h] none)
      (fun _ => w.chronicle.deletes h) w.chronicle
      ((Queue.locked (Queue.appendIfWatched h)).run w.queue)
  | .destroying (h :: rest) own =>
    w.after i (fun _ => .destroying rest own) (fun payload => w.chronicle.drops [(h, payload)])
      w.chronicle ((Queue.takePayload h).run w.queue)
  | .destroying [] (some e) =>
    w.after i (fun _ => .destroying [] none) (fun _ => w.chronicle) w.chronicle
      ((Queue.destroy e.serial).run w.queue)
  | .destroying [] none => { w with tasks := w.tasks.set i .idle }
  | .idle | .stopped => w

/-- A step of thread `i`. A thread begins an operation only after it has ended the one before. -/
def step (w : World α) (i : Nat) (move : Move α) : World α :=
  match w.tasks[i]?, move with
  | some task, .proceed => w.proceed i task
  | some .idle, move => w.begin i move
  | _, _ => w

/-- A schedule: whose turn it is, and what that thread does. -/
def run (w : World α) (schedule : List (Nat × Move α)) : World α :=
  schedule.foldl (fun w turn => w.step turn.1 turn.2) w

end World

/-! ## What every step keeps -/

/-- The chronicle is right, and no two threads work on the same entry. Cells are lost only where a
thread was stopped, and a thread is stopped only after as many deletions as a word can count. -/
structure Works (q : Queue α) (tasks : List Task) (c : Chronicle α) : Prop where
  kept : ∃ xs lost, Kept q xs (tasks.flatMap Task.doomed ++ lost) c ∧
    (lost = [] ∨ Task.stopped ∈ tasks)
  deciding : (tasks.flatMap Task.deciding).Nodup
  undecided : ∀ h ∈ tasks.flatMap Task.deciding, h ∈ c.handles
  formed : ∀ t ∈ tasks, t.Formed
  stopped : Task.stopped ∈ tasks → wordBound ≤ c.deleted.length

namespace Works
variable {q q' : Queue α} {xs : List EntryId} {e h : EntryId} {c : Chronicle α} {tasks tasks' rest : List Task} {t t' : Task}

theorem perm (hw : Works q tasks c) (hp : tasks.Perm tasks') : Works q tasks' c where
  kept := by
    obtain ⟨xs, lost, hk, hlost⟩ := hw.kept
    exact ⟨xs, lost, hk.perm ((hp.flatMap_right _).append_right lost),
      hlost.imp_right hp.mem_iff.1⟩
  deciding := (hp.flatMap_right _).nodup_iff.1 hw.deciding
  undecided := fun h hh => hw.undecided h ((hp.flatMap_right _).mem_iff.2 hh)
  formed := fun t ht => hw.formed t (hp.mem_iff.2 ht)
  stopped := fun hs => hw.stopped (hp.mem_iff.2 hs)

/-- The queue, with one thread before the others. -/
theorem kept_cons (hw : Works q (t :: rest) c) (hrun : t ≠ .stopped) :
    ∃ xs lost, Kept q xs (t.doomed ++ (rest.flatMap Task.doomed ++ lost)) c ∧
      (lost = [] ∨ Task.stopped ∈ rest) := by
  obtain ⟨xs, lost, hk, hlost⟩ := hw.kept
  rw [List.flatMap_cons, List.append_assoc] at hk
  exact ⟨xs, lost, hk, hlost.imp_right fun hs => (List.mem_cons.1 hs).resolve_left hrun.symm⟩

theorem deciding_sublist (t : Task) (rest : List Task) :
    (rest.flatMap Task.deciding).Sublist ((t :: rest).flatMap Task.deciding) := by
  rw [List.flatMap_cons]
  exact List.sublist_append_right _ _

theorem change {c' : Chronicle α} {lost : List EntryId} (hw : Works q (t :: rest) c)
    (hk : Kept q' xs (t'.doomed ++ (rest.flatMap Task.doomed ++ lost)) c')
    (hlost : (lost = [] ∨ Task.stopped ∈ rest) ∨ t' = .stopped) (hformed : t'.Formed)
    (hdeciding : (t'.deciding ++ rest.flatMap Task.deciding).Nodup)
    (hundecided : ∀ h ∈ t'.deciding ++ rest.flatMap Task.deciding, h ∈ c'.handles)
    (hevents : c.events.Sublist c'.events)
    (hstopped : t' = .stopped → wordBound ≤ c'.deleted.length) : Works q' (t' :: rest) c' where
  kept := by
    refine ⟨xs, lost, by rwa [List.flatMap_cons, List.append_assoc], ?_⟩
    rcases hlost with hlost | rfl
    · exact hlost.imp_right (List.mem_cons_of_mem _)
    · exact Or.inr List.mem_cons_self
  deciding := hdeciding
  undecided := hundecided
  formed := by
    intro t₁ ht₁
    rcases List.mem_cons.1 ht₁ with rfl | ht₁
    · exact hformed
    · exact hw.formed t₁ (List.mem_cons_of_mem _ ht₁)
  stopped := by
    intro hs
    rcases List.mem_cons.1 hs with heq | hs
    · exact hstopped heq.symm
    · refine (hw.stopped (List.mem_cons_of_mem _ hs)).trans ?_
      rw [Chronicle.length_deleted, Chronicle.length_deleted]
      exact hevents.countP_le

/-- A step that leaves handles alone. -/
theorem keep {c' : Chronicle α} {lost : List EntryId} (hw : Works q (t :: rest) c)
    (hk : Kept q' xs (t'.doomed ++ (rest.flatMap Task.doomed ++ lost)) c')
    (hlost : (lost = [] ∨ Task.stopped ∈ rest) ∨ t' = .stopped) (hformed : t'.Formed)
    (hquiet : t'.deciding = []) (hhandles : ∀ h ∈ c.handles, h ∈ c'.handles)
    (hevents : c.events.Sublist c'.events)
    (hstopped : t' = .stopped → wordBound ≤ c'.deleted.length) : Works q' (t' :: rest) c' := by
  have hsub := deciding_sublist t rest
  refine hw.change hk hlost hformed ?_ ?_ hevents hstopped <;> rw [hquiet, List.nil_append]
  · exact hsub.nodup hw.deciding
  · exact fun h hh => hhandles h (hw.undecided h (hsub.subset hh))

/-- A step that decides the fate of `h`, which no other thread is about to delete. -/
theorem decide {lost : List EntryId} (hw : Works q (t :: rest) c)
    (hk : Kept q' xs (t'.doomed ++ (rest.flatMap Task.doomed ++ lost)) (c.deletes h))
    (hlost : lost = [] ∨ Task.stopped ∈ rest) (hrun : t' ≠ .stopped) (hformed : t'.Formed)
    (hquiet : t'.deciding = []) (hother : h ∉ rest.flatMap Task.deciding) :
    Works q' (t' :: rest) (c.deletes h) := by
  have hsub := deciding_sublist t rest
  refine hw.change hk (Or.inl hlost) hformed ?_ ?_ (List.sublist_append_left _ _)
    (fun hs => absurd hs hrun) <;> rw [hquiet, List.nil_append]
  · exact hsub.nodup hw.deciding
  · intro h' hh'
    have hne : h' ≠ h := by
      rintro rfl
      exact hother hh'
    exact (List.mem_erase_of_ne hne).2 (hw.undecided h' (hsub.subset hh'))

end Works

namespace World
variable {w : World α} {i : Nat} {t : Task} {h : EntryId}

/-- What every step keeps, of a whole world. -/
def Sound (w : World α) : Prop := Works w.queue w.tasks w.chronicle

theorem sound_start (threads number : Nat) (kind : LockKind) :
    (start threads number kind : World α).Sound := by
  have hidle : ∀ t ∈ List.replicate threads Task.idle, t = .idle := fun t ht =>
    (List.mem_replicate.1 ht).2
  have hdoomed : (List.replicate threads Task.idle).flatMap Task.doomed = [] :=
    List.flatMap_eq_nil_iff.2 fun t ht => by rw [hidle t ht]; rfl
  have hdeciding : (List.replicate threads Task.idle).flatMap Task.deciding = [] :=
    List.flatMap_eq_nil_iff.2 fun t ht => by rw [hidle t ht]; rfl
  refine ⟨⟨[], [], ?_, Or.inl rfl⟩, ?_, ?_, ?_, ?_⟩
  · show Kept _ [] ((List.replicate threads Task.idle).flatMap Task.doomed ++ []) _
    rw [hdoomed]
    exact kept_new number kind
  · show ((List.replicate threads Task.idle).flatMap Task.deciding).Nodup
    rw [hdeciding]
    exact List.nodup_nil
  · show ∀ h ∈ (List.replicate threads Task.idle).flatMap Task.deciding, _
    rw [hdeciding]
    exact fun h hh => absurd hh List.not_mem_nil
  · intro t ht
    rw [hidle t ht]
    trivial
  · intro hs
    cases hidle _ hs

theorem Sound.focus (hs : w.Sound) (hi : w.tasks[i]? = some t) :
    Works w.queue (t :: w.tasks.eraseIdx i) w.chronicle := by
  obtain ⟨hlt, rfl⟩ := List.getElem?_eq_some_iff.1 hi
  exact hs.perm (List.getElem_cons_eraseIdx_perm hlt).symm

theorem sound_set {q' : Queue α} {c' : Chronicle α} {t' : Task} (hi : w.tasks[i]? = some t)
    (hw : Works q' (t' :: w.tasks.eraseIdx i) c') : Sound ⟨q', w.tasks.set i t', c'⟩ := by
  obtain ⟨hlt, -⟩ := List.getElem?_eq_some_iff.1 hi
  exact hw.perm (List.set_perm_cons_eraseIdx hlt t').symm

theorem sound_after {op : QueueM α β} {next : β → Task} {c : β → Chronicle α}
    {failed : Chronicle α} (hi : w.tasks[i]? = some t)
    (hop : Leaves op w.queue (fun answer q' => Works q' (next answer :: w.tasks.eraseIdx i) (c answer))
      fun _ q' => Works q' (.stopped :: w.tasks.eraseIdx i) failed) :
    (w.after i next c failed (op.run w.queue)).Sound := by
  unfold Leaves at hop
  split at hop <;> rename_i heq <;> rw [heq] <;> exact sound_set hi hop

theorem not_mem_deciding (hi : w.tasks[i]? = some t) (hh : h ∉ w.deciding) :
    h ∉ t.deciding ∧ h ∉ (w.tasks.eraseIdx i).flatMap Task.deciding := by
  obtain ⟨hlt, rfl⟩ := List.getElem?_eq_some_iff.1 hi
  rw [deciding, ((List.getElem_cons_eraseIdx_perm hlt).symm.flatMap_right _).mem_iff,
    List.flatMap_cons, List.mem_append, not_or] at hh
  exact hh

theorem Sound.begin (hs : w.Sound) (hi : w.tasks[i]? = some .idle) (move : Move α) :
    (w.begin i move).Sound := by
  have hw := hs.focus hi
  obtain ⟨xs, lost, hk, hlost⟩ := hw.kept_cons (by simp)
  rcases move with _ | payload | h | e | _
  · obtain ⟨e, q', hrun, hk'⟩ := hk.opens
    exact sound_after hi (leaves_of_run_eq_ok hrun (hw.keep hk' (Or.inl hlost) trivial rfl
      (fun _ hh => hh) (List.sublist_append_left _ _) (by simp)))
  · obtain ⟨h, q', hrun, hk'⟩ := hk.makes payload
    exact sound_after hi (leaves_of_run_eq_ok hrun (hw.keep hk' (Or.inl hlost) trivial rfl
      (fun _ hh => List.mem_cons_of_mem _ hh) (List.Sublist.refl _) (by simp)))
  · by_cases hh : h ∈ w.chronicle.handles ∧ h ∉ w.deciding
    · rw [World.begin, if_pos hh]
      obtain ⟨hlive, hfree⟩ := hh
      have hother := (not_mem_deciding hi hfree).2
      by_cases hempty : w.queue.isEmpty = true
      · rw [if_pos hempty]
        rw [hk.timeline.orderly.isEmpty_eq, List.isEmpty_iff] at hempty
        subst hempty
        refine sound_set hi (hw.decide (hk.passes hlive) hlost (by simp) ⟨fun h' hh' => ?_, by simp⟩ rfl
          hother)
        rw [List.mem_singleton.1 hh']
        exact hk.isHandle_of_live hlive
      · rw [if_neg hempty]
        refine sound_set hi (hw.change hk (Or.inl hlost) trivial (List.nodup_cons.2
          ⟨hother, hw.deciding⟩) (fun h' hh' => ?_) (List.Sublist.refl _) (by simp))
        rcases List.mem_cons.1 hh' with rfl | hh'
        · exact hlive
        · exact hw.undecided h' hh'
    · rw [World.begin, if_neg hh]
      exact hs
  · by_cases he : e ∈ w.chronicle.snapshots
    · rw [World.begin, if_pos he]
      refine sound_after hi ((hk.leaves he).mono ?_ ?_)
      · intro gone q' hafter
        obtain ⟨rfl, hk'⟩ := hafter
        have hdoomed : leaving xs e ++ e :: (Task.idle.doomed ++
            ((w.tasks.eraseIdx i).flatMap Task.doomed ++ lost)) =
            (Task.destroying (leaving xs e) (some e)).doomed ++
              ((w.tasks.eraseIdx i).flatMap Task.doomed ++ lost) := by
          simp [Task.doomed]
        rw [hdoomed] at hk'
        refine hw.keep hk' (Or.inl hlost) ⟨fun h hh => isHandle_of_leaving hh, ?_⟩ rfl
          (fun _ hh => hh) (List.Sublist.refl _) (by simp)
        rintro e' ⟨⟩
        exact ((hk.live e).1 he).2
      · intro fault q' hafter
        obtain ⟨hk', hword⟩ := hafter
        have hdoomed : (leaving xs e ++ e :: ((w.tasks.eraseIdx i).flatMap Task.doomed ++ lost)).Perm
            ((w.tasks.eraseIdx i).flatMap Task.doomed ++ (lost ++ (leaving xs e ++ [e]))) := by
          rw [List.append_cons, ← List.append_assoc _ lost]
          exact List.perm_append_comm
        exact hw.keep (hk'.perm hdoomed) (Or.inr rfl) trivial rfl (fun _ hh => hh)
          (List.Sublist.refl _) fun _ => hword
    · rw [World.begin, if_neg he]
      exact hs
  · exact hs

theorem Sound.proceed (hs : w.Sound) (hi : w.tasks[i]? = some t) : (w.proceed i t).Sound := by
  have hw := hs.focus hi
  have hformed := hw.formed t List.mem_cons_self
  cases t with
  | idle => exact hs
  | stopped => exact hs
  | deleting h =>
    obtain ⟨xs, lost, hk, hlost⟩ := hw.kept_cons (by simp)
    have hlive := hw.undecided h List.mem_cons_self
    have hother := (List.nodup_cons.1 hw.deciding).1
    rcases xs with _ | ⟨x, rest⟩
    · have hrun := Queue.run_appendIfWatched_of_nil hk.timeline.orderly h
      refine sound_after hi (leaves_of_run_eq_ok hrun (hw.decide (hk.passes hlive) hlost (by simp)
        ⟨fun h' hh' => ?_, by simp⟩ rfl hother))
      rw [List.mem_singleton.1 hh']
      exact hk.isHandle_of_live hlive
    · obtain ⟨q', hrun, hk'⟩ := hk.joins hlive (List.cons_ne_nil x rest)
      exact sound_after hi (leaves_of_run_eq_ok hrun (hw.decide hk' hlost (by simp) trivial rfl hother))
  | destroying handles own =>
    obtain ⟨xs, lost, hk, hlost⟩ := hw.kept_cons (by simp)
    rcases handles with _ | ⟨h, rest⟩
    · cases own with
      | none =>
        exact sound_set hi (hw.keep hk (Or.inl hlost) trivial rfl (fun _ hh => hh)
          (List.Sublist.refl _) (by simp))
      | some e =>
        obtain ⟨content, q', hrun, hk'⟩ := hk.frees (hformed.2 e rfl)
        exact sound_after hi (leaves_of_run_eq_ok hrun (hw.keep hk' (Or.inl hlost)
          ⟨by simp, by simp⟩ rfl (fun _ hh => hh) (List.Sublist.refl _) (by simp)))
    · obtain ⟨payload, q', hrun, hk'⟩ := hk.takes (hformed.1 h List.mem_cons_self)
      exact sound_after hi (leaves_of_run_eq_ok hrun (hw.keep hk' (Or.inl hlost)
        ⟨fun h' hh' => hformed.1 h' (List.mem_cons_of_mem _ hh'), hformed.2⟩ rfl (fun _ hh => hh)
        (List.Sublist.refl _) (by simp)))

theorem Sound.step (hs : w.Sound) (i : Nat) (move : Move α) : (w.step i move).Sound := by
  unfold World.step
  split
  · exact hs.proceed (by assumption)
  · exact hs.begin (by assumption) _
  · exact hs

theorem Sound.run (hs : w.Sound) (schedule : List (Nat × Move α)) : (w.run schedule).Sound := by
  induction schedule generalizing w with
  | nil => exact hs
  | cons turn rest ih => exact ih (hs.step turn.1 turn.2)

/-- **Whatever the threads do in whatever order: no payload is destroyed while a snapshot is in the
chain that was put there before the fate of the payload was decided, and none is destroyed twice;
between two steps the lock is free, the oldest entry is a snapshot and the counter of waiting handles
is right; and when all threads are done and all snapshots are gone, every deleted payload was
destroyed once and nothing waits.** A thread is stopped only after as many deletions as a word can
count. -/
theorem payloads_outlive_watchers (threads number : Nat) (kind : LockKind)
    (schedule : List (Nat × Move α)) :
    let w := (start threads number kind).run schedule
    (∃ chain, Queue.entries.run w.queue = .ok chain w.queue ∧
      (∀ s, s ∈ w.chronicle.snapshots ↔ s ∈ chain ∧ s.isSnapshot = true) ∧
      (∀ h, w.chronicle.IsDropped h → ∀ s ∈ chain, ¬ [s, h].Sublist w.chronicle.events) ∧
      (∀ e, chain.getLast? = some e → e.isSnapshot = true) ∧
      w.queue.stats.pending = chain.countP isHandle) ∧
    w.queue.lock.held = false ∧
    (w.chronicle.dropped.map (·.1)).Nodup ∧
    (∀ p ∈ w.chronicle.dropped, p ∈ w.chronicle.made ∧ p.1 ∈ w.chronicle.deleted) ∧
    ((∀ t ∈ w.tasks, t = .idle) → w.chronicle.snapshots = [] →
      (∀ h ∈ w.chronicle.deleted, (w.chronicle.dropped.map (·.1)).count h = 1) ∧
      w.queue.isEmpty = true ∧ w.queue.stats.pending = 0) ∧
    (Task.stopped ∈ w.tasks → wordBound ≤ w.chronicle.deleted.length) := by
  intro w
  have hs := (sound_start threads number kind : (start threads number kind : World α).Sound).run
    schedule
  obtain ⟨xs, lost, hk, hlost⟩ := hs.kept
  have ho := hk.timeline.orderly
  refine ⟨⟨xs.reverse, Queue.run_entries ho, ?_, ?_, ?_, ?_⟩, ho.free, hk.stock.once, ?_, ?_,
    hs.stopped⟩
  · intro s
    rw [List.mem_reverse]
    exact hk.live s
  · intro h hd s hmem
    obtain ⟨p, hp, rfl⟩ := List.mem_map.1 hd
    obtain ⟨hmade, hevent, -⟩ := hk.stock.gone p hp
    refine hk.timeline.late p.1 hevent (hk.stock.isHandle_of_made hmade) (fun hin => ?_) s
      (List.mem_reverse.1 hmem)
    exact hk.stock.not_stands_of_isDropped hd (ho.stands hin)
  · intro e he
    rw [List.getLast?_reverse] at he
    exact ho.oldest e he
  · rw [List.countP_reverse]
    exact ho.pending
  · exact fun p hp => hk.made_and_deleted hp
  · intro hidle hnone
    obtain rfl := hk.chain_eq_nil_iff.2 hnone
    have hrun : Task.stopped ∉ w.tasks := by
      intro hstop
      cases hidle _ hstop
    obtain rfl := hlost.resolve_right hrun
    have hnothing : w.tasks.flatMap Task.doomed = [] :=
      List.flatMap_eq_nil_iff.2 fun t ht => by rw [hidle t ht]; rfl
    rw [hnothing] at hk
    exact ⟨fun h hh => hk.count_dropped_eq_one hh, hk.isEmpty_iff.2 hnone, ho.pending⟩

end World
end RopeStore.Deferral
