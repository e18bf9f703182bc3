import Mathlib.Data.List.Basic
import RopeStore.Proofs.Deferral.Session

/-!
# The chain is a plain sequence

* `Sequence` : the same acts on a list of entries, without any cell, link or counter. New entries come
  to its end, and a snapshot leaves it alone or, as the first entry, with the handles right behind it;
* `Queue.run_delete`, `Queue.leaves_dropSnapshot` : the two operations that do different things, each
  with the list that it leaves;
* `Follows` : the queue of a session and the list after the same acts;
* `chain_is_sequence` : both walks along the chain meet the list, and the counters count it.
-/

namespace RopeStore.Deferral
variable {α : Type} {q q' q'' : Queue α} {xs ys gone gone' : List EntryId} {e h : EntryId}

theorem Orderly.unique (ho : Orderly q xs) (ho' : Orderly q ys) : xs = ys := by
  have hwalk := Queue.run_entries ho
  rw [Queue.run_entries ho'] at hwalk
  exact (List.reverse_injective (EStateM.Result.ok.inj hwalk).1).symm

/-! ## Cells that go -/

/-- The cells of `gone` went, and no others. -/
structure Thinned (gone : List EntryId) (q q' : Queue α) : Prop where
  number : q'.number = q.number
  size : q'.cells.size = q.cells.size
  stats : q'.stats = q.stats
  stands : ∀ e, Stands q e → e ∉ gone → Stands q' e
  ended : ∀ e ∈ gone, q'.cell? e.serial = none
  stays : ∀ s, q.cell? s = none → q'.cell? s = none

theorem Thinned.refl (q : Queue α) : Thinned [] q q :=
  ⟨rfl, rfl, rfl, fun _ he _ => he, fun _ he => absurd he List.not_mem_nil, fun _ hs => hs⟩

theorem Thinned.trans (h₁ : Thinned gone q q') (h₂ : Thinned gone' q' q'') :
    Thinned (gone ++ gone') q q'' where
  number := h₂.number.trans h₁.number
  size := h₂.size.trans h₁.size
  stats := h₂.stats.trans h₁.stats
  stands := by
    intro e he hout
    rw [List.mem_append, not_or] at hout
    exact h₂.stands e (h₁.stands e he hout.1) hout.2
  ended := fun e he =>
    (List.mem_append.1 he).elim (fun he => h₂.stays _ (h₁.ended e he)) (h₂.ended e)
  stays := fun s hs => h₂.stays s (h₁.stays s hs)

theorem thinned_erase (hs : Stands q e) :
    Thinned [e] q { q with cells := q.cells.erase e.serial } where
  number := rfl
  size := Arena.size_erase ..
  stats := rfl
  stands := fun _ he' hout => stands_erase he' hs (List.ne_of_not_mem_cons hout)
  ended := by
    intro e' he'
    rw [List.mem_singleton.1 he']
    exact cell?_erase_self q e.serial
  stays := by
    intro s hs'
    by_cases hserial : s = e.serial
    · rw [hserial]
      exact cell?_erase_self q e.serial
    · rw [cell?_erase_of_ne q hserial, hs']

namespace Queue

theorem ends_takePayloads (ho : Orderly q xs) (hnodup : gone.Nodup)
    (hgone : ∀ h ∈ gone, isHandle h = true ∧ Stands q h ∧ h ∉ xs) :
    Ends (gone.mapM fun handle => return (handle, ← takePayload handle)) q
      fun taken q' => taken.map (·.1) = gone ∧ Orderly q' xs ∧ Thinned gone q q' := by
  induction gone generalizing q with
  | nil => exact ends_of_run_eq_ok (a := []) rfl ⟨rfl, ho, .refl q⟩
  | cons h rest ih =>
    obtain ⟨hout, hrest⟩ := List.nodup_cons.1 hnodup
    obtain ⟨hkind, hstands, hnot⟩ := hgone h List.mem_cons_self
    obtain ⟨payload, hholds⟩ := exists_holds hstands hkind
    have hthin := thinned_erase hstands
    have hfirst : (do return (h, ← takePayload h) : QueueM α (EntryId × α)).run q =
        .ok (h, payload) { q with cells := q.cells.erase h.serial } := by
      rw [run_bind_of_run_eq_ok (run_takePayload hholds)]
      rfl
    rw [List.mapM_cons, ends_bind_of_run_eq_ok hfirst]
    refine (ih (ho.erase hstands hnot) hrest fun h' hh' => ?_).bind fun _ q' hafter =>
      ⟨congrArg (h :: ·) hafter.1, hafter.2.1, hthin.trans hafter.2.2⟩
    obtain ⟨hkind', hstands', hnot'⟩ := hgone h' (List.mem_cons_of_mem _ hh')
    refine ⟨hkind', hthin.stands h' hstands' fun hmem => hout ?_, hnot'⟩
    rwa [← List.mem_singleton.1 hmem]

/-! ## The operations -/

/-- A handle that is deleted comes to the end of the chain, unless nobody watches. -/
theorem run_delete {payload : α} (ho : Orderly q xs) (hh : Holds q h payload) (hnew : h ∉ xs) :
    ∃ q', (delete h).run q = .ok (if xs = [] then some payload else none) q' ∧
      Orderly q' (if xs = [] then [] else xs ++ [h]) ∧ q'.number = q.number ∧
      q'.cells.size = q.cells.size ∧ q'.stats.reclaimed = q.stats.reclaimed ∧
      ∀ s, q.cell? s = none → q'.cell? s = none := by
  have hempty := ho.isEmpty_eq
  rw [delete, run_bind_of_run_eq_ok (EStateM.run_get q), hempty]
  rcases xs with _ | ⟨x, rest⟩
  · rw [if_pos rfl, if_pos rfl]
    have hthin := thinned_erase hh.stands
    refine ⟨_, ?_, ho.erase hh.stands hnew, hthin.number, hthin.size,
      congrArg Stats.reclaimed hthin.stats, hthin.stays⟩
    show (takePayload h >>= _ : QueueM α _).run q = _
    rw [run_bind_of_run_eq_ok (run_takePayload hh)]
    rfl
  · rw [if_neg (List.cons_ne_nil x rest), if_neg (List.cons_ne_nil x rest)]
    obtain ⟨q', hrun, ho', hsame, hreclaimed⟩ := run_appendIfWatched ho (List.cons_ne_nil x rest)
      hh.stands hh.2.1 hnew
    refine ⟨q', ?_, ho', hsame.number, hsame.size, hreclaimed, hsame.stays⟩
    show (locked (appendIfWatched h) >>= _ : QueueM α _).run q = _
    rw [run_bind_of_run_eq_ok hrun]
    rfl

/-- A snapshot that is dropped leaves the chain, and with the oldest one the handles behind it; also
where the count of all handles that ever left is full. -/
theorem leaves_dropSnapshot (ho : Orderly q xs) (he : e ∈ xs) (hsnap : e.isSnapshot = true) :
    Leaves (dropSnapshot e) q
      (fun taken q' => Orderly q' (staying xs e) ∧ q'.number = q.number ∧
        q'.cells.size = q.cells.size ∧
        q'.stats.reclaimed = q.stats.reclaimed + (leaving xs e).length ∧
        taken.map (·.1) = leaving xs e ∧ (∀ h ∈ leaving xs e, q'.cell? h.serial = none) ∧
        ∀ s, q.cell? s = none → q'.cell? s = none)
      fun fault q' => fault = .addOverflow ∧ Orderly q' (staying xs e) ∧ q'.number = q.number ∧
        q'.cells.size = q.cells.size ∧ q'.stats.reclaimed = q.stats.reclaimed ∧
        wordBound ≤ q.stats.reclaimed + (leaving xs e).length := by
  have hnodup := ho.nodup
  unfold dropSnapshot
  refine Leaves.bind ((leaves_removeSnapshot ho he hsnap).mono (fun _ _ hgood => hgood) ?_) ?_
  · intro fault q' hafter
    obtain ⟨hfault, ho', hsame, hreclaimed, hword⟩ := hafter
    exact ⟨hfault, ho', hsame.number, hsame.size, hreclaimed, hword⟩
  · intro doomed q₁ hafter
    obtain ⟨rfl, ho₁, hsame, hreclaimed⟩ := hafter
    have hgone : ∀ h ∈ leaving xs e, isHandle h = true ∧ Stands q₁ h ∧ h ∉ staying xs e :=
      fun h hh => ⟨isHandle_of_leaving hh,
        hsame.stands.2 (ho.stands ((leaving_sublist xs e).subset hh)),
        not_mem_staying_of_leaving hnodup hh⟩
    refine Leaves.bind (ends_takePayloads ho₁ ((leaving_sublist xs e).nodup hnodup) hgone).leaves ?_
    intro payloads q₂ hafter
    obtain ⟨htaken, ho₂, hthin⟩ := hafter
    have hstands := hthin.stands e (hsame.stands.2 (ho.stands he)) (not_mem_leaving hsnap)
    obtain ⟨content, hrun⟩ := run_destroy_of_stands hstands
    have hthin' := thinned_erase hstands
    rw [leaves_bind_of_run_eq_ok hrun]
    refine ⟨ho₂.erase hstands (self_not_mem_staying hnodup), hthin.number.trans hsame.number,
      hthin'.size.trans (hthin.size.trans hsame.size), ?_, htaken,
      fun h hh => hthin'.stays _ (hthin.ended h hh),
      fun s hs => hthin'.stays s (hthin.stays s (hsame.stays s hs))⟩
    show q₂.stats.reclaimed = _
    rw [hthin.stats, hreclaimed]

end Queue

/-! ## The sequence -/

/-- Snapshots and deleted handles in their order, and what their client may still name. -/
structure Sequence where
  made : Nat
  handles : List EntryId
  entries : List EntryId
  /-- How many deleted handles had to wait. -/
  deferred : Nat

namespace Sequence

def empty : Sequence := ⟨0, [], [], 0⟩

/-- One act, in a sequence of snapshots and handles of the queue `number`. -/
def step (number : Nat) (l : Sequence) : Session.Act α → Sequence
  | .openSnapshot =>
    { l with made := l.made + 1, entries := l.entries ++ [⟨number, l.made, true⟩] }
  | .newHandle _ => { l with made := l.made + 1, handles := ⟨number, l.made, false⟩ :: l.handles }
  | .deleteHandle h =>
    if h ∈ l.handles then
      if l.entries = [] then { l with handles := l.handles.erase h }
      else
        { l with
          handles := l.handles.erase h
          entries := l.entries ++ [h]
          deferred := l.deferred + 1 }
    else l
  | .dropSnapshot e =>
    if e ∈ l.entries ∧ e.isSnapshot = true then { l with entries := staying l.entries e } else l

def run (number : Nat) (acts : List (Session.Act α)) : Sequence := acts.foldl (step number) empty

end Sequence

/-- The session stands where the sequence does. A fault takes as many deferred deletions as a word can
count. -/
structure Follows (number : Nat) (s : Session α) (l : Sequence) : Prop where
  orderly : Orderly s.queue l.entries
  own : s.queue.number = number
  made : s.queue.cells.size = l.made
  handles : s.chronicle.handles = l.handles
  bounded : l.entries.countP isHandle + s.queue.stats.reclaimed ≤ l.deferred
  counted : s.faults = [] ∧ l.entries.countP isHandle + s.queue.stats.reclaimed = l.deferred ∨
    wordBound ≤ l.deferred
  overflow : ∀ fault ∈ s.faults, fault = .addOverflow

namespace Follows
variable {number : Nat} {s : Session α} {l : Sequence}

theorem start (number : Nat) (kind : LockKind) :
    Follows number (Session.start number kind : Session α) .empty where
  orderly := orderly_new number kind
  own := rfl
  made := rfl
  handles := rfl
  bounded := Nat.le_refl 0
  counted := .inl ⟨rfl, rfl⟩
  overflow := fun _ hfault => absurd hfault List.not_mem_nil

/-- An act that does not fault and leaves as many handles waiting, plus those that left. -/
theorem ended (hf : Follows number s l) {l' : Sequence} {q' : Queue α} {c : Chronicle α}
    (ho : Orderly q' l'.entries) (hown : q'.number = s.queue.number) (hmade : q'.cells.size = l'.made)
    (hhandles : c.handles = l'.handles)
    (hcount : l'.entries.countP isHandle + q'.stats.reclaimed + l.deferred =
      l.entries.countP isHandle + s.queue.stats.reclaimed + l'.deferred)
    (hdeferred : l.deferred ≤ l'.deferred) :
    Follows number { s with queue := q', chronicle := c } l' where
  orderly := ho
  own := hown.trans hf.own
  made := hmade
  handles := hhandles
  bounded := by
    have := hf.bounded
    show _ + q'.stats.reclaimed ≤ _
    omega
  counted := by
    refine hf.counted.imp (fun hall => ⟨hall.1, ?_⟩) fun hword => hword.trans hdeferred
    have := hall.2
    show _ + q'.stats.reclaimed = _
    omega
  overflow := hf.overflow

theorem openSnapshot (hf : Follows number s l) :
    Follows number (s.step .openSnapshot) (l.step number (.openSnapshot : Session.Act α)) := by
  obtain ⟨q', hrun, ho, hsame, hstats⟩ := Queue.run_openSnapshot hf.orderly
  rw [hf.own, hf.made] at hrun ho
  refine Session.after_of_leaves (p := (Follows number · _)) (leaves_of_run_eq_ok hrun
    (hf.ended ho hsame.number ?_ hf.handles ?_ (Nat.le_refl _)))
  · rw [hsame.size, Arena.size_push, hf.made]
    rfl
  · rw [hstats]
    show (l.entries ++ [(⟨number, l.made, true⟩ : EntryId)]).countP isHandle + _ + l.deferred = _
    rw [List.countP_append, List.countP_singleton]
    rfl

theorem newHandle (hf : Follows number s l) (payload : α) :
    Follows number (s.step (.newHandle payload)) (l.step number (.newHandle payload)) := by
  have hrun : (Queue.newHandle payload).run s.queue = _ := Queue.run_create s.queue (.handle payload)
  rw [Session.step]
  refine Session.after_of_leaves (p := (Follows number · (l.step number (.newHandle payload))))
    (leaves_of_run_eq_ok hrun (hf.ended (hf.orderly.push _) rfl ?_ ?_ rfl (Nat.le_refl _)))
  · rw [Arena.size_push, hf.made]
    rfl
  · show _ :: s.chronicle.handles = _ :: l.handles
    rw [hf.handles, hf.own, hf.made]
    rfl

theorem deleteHandle (hf : Follows number s l) (hs : s.Sound) (h : EntryId) :
    Follows number (s.step (.deleteHandle h)) (l.step number (.deleteHandle h : Session.Act α)) := by
  rw [Session.step, Sequence.step, hf.handles]
  by_cases hh : h ∈ l.handles
  · obtain ⟨xs, lost, hk, -⟩ := hs
    obtain rfl := hk.timeline.orderly.unique hf.orderly
    have hlive : h ∈ s.chronicle.handles := hf.handles ▸ hh
    obtain ⟨payload, hholds⟩ := hk.stock.holds_of_live hlive
    have hnew : h ∉ l.entries := fun hmem =>
      hk.not_mem_events_of_live hlive (hk.timeline.sub.subset hmem)
    obtain ⟨q', hrun, ho, hown, hmade, hreclaimed, -⟩ := Queue.run_delete hf.orderly hholds hnew
    have hhandles : s.chronicle.handles.erase h = l.handles.erase h := by rw [hf.handles]
    rw [if_pos hh, if_pos hh]
    refine Session.after_of_leaves (p := (Follows number · _)) (leaves_of_run_eq_ok hrun ?_)
    by_cases hnil : l.entries = []
    · simp only [if_pos hnil] at ho ⊢
      rw [← hnil] at ho
      refine hf.ended ho hown (hmade.trans hf.made) hhandles ?_ (Nat.le_refl _)
      rw [hreclaimed]
    · simp only [if_neg hnil] at ho ⊢
      refine hf.ended ho hown (hmade.trans hf.made) hhandles ?_ (Nat.le_succ _)
      rw [hreclaimed, List.countP_append, List.countP_singleton, if_pos (hk.isHandle_of_live hlive)]
      show _ + 1 + _ + l.deferred = _ + (l.deferred + 1)
      omega
  · rw [if_neg hh, if_neg hh]
    exact hf

theorem dropSnapshot (hf : Follows number s l) (hs : s.Sound) (e : EntryId) :
    Follows number (s.step (.dropSnapshot e)) (l.step number (.dropSnapshot e : Session.Act α)) := by
  obtain ⟨xs, lost, hk, -⟩ := hs
  obtain rfl := hk.timeline.orderly.unique hf.orderly
  rw [Session.step, Sequence.step]
  by_cases he : e ∈ s.chronicle.snapshots
  · obtain ⟨hin, hsnap⟩ := (hk.live e).1 he
    have hcount := countP_staying hin hsnap
    rw [if_pos he, if_pos ⟨hin, hsnap⟩]
    refine Session.after_of_leaves (p := (Follows number · _))
      ((Queue.leaves_dropSnapshot hf.orderly hin hsnap).mono ?_ ?_)
    · intro taken q' hafter
      obtain ⟨ho, hown, hmade, hreclaimed, -⟩ := hafter
      refine hf.ended ho hown (hmade.trans hf.made) hf.handles ?_ (Nat.le_refl _)
      rw [hreclaimed]
      show (staying l.entries e).countP isHandle + _ + l.deferred = _ + l.deferred
      omega
    · intro fault q' hafter
      obtain ⟨rfl, ho, hown, hmade, hreclaimed, hword⟩ := hafter
      have hbounded := hf.bounded
      refine ⟨ho, hown.trans hf.own, hmade.trans hf.made, hf.handles, ?_, .inr ?_, ?_⟩
      · show (staying l.entries e).countP isHandle + q'.stats.reclaimed ≤ l.deferred
        omega
      · show wordBound ≤ l.deferred
        omega
      · intro fault hfault
        exact (List.mem_cons.1 hfault).elim id (hf.overflow fault)
  · rw [if_neg he, if_neg fun hboth => he ((hk.live e).2 hboth)]
    exact hf

theorem step (hf : Follows number s l) (hs : s.Sound) (act : Session.Act α) :
    Follows number (s.step act) (l.step number act) := by
  cases act with
  | openSnapshot => exact hf.openSnapshot
  | newHandle payload => exact hf.newHandle payload
  | deleteHandle h => exact hf.deleteHandle hs h
  | dropSnapshot e => exact hf.dropSnapshot hs e

theorem run (hf : Follows number s l) (hs : s.Sound) (acts : List (Session.Act α)) :
    Follows number (s.run acts) (acts.foldl (Sequence.step number) l) := by
  induction acts generalizing s l with
  | nil => exact hf
  | cons act rest ih => exact ih (hf.step hs act) (hs.step act)

/-- A walk that may take enough steps meets every entry and stops at the end of the chain. -/
theorem walks (hf : Follows number s l) {steps : Nat} (hsteps : l.entries.length ≤ steps) :
    s.queue.olderWalkWithin steps s.queue.newest = .ok (l.entries.reverse.map (·.serial)) ∧
      s.queue.newerWalkWithin steps (l.entries.head?.map (·.serial)) =
        .ok (l.entries.map (·.serial)) := by
  have hch := hf.orderly.chain
  have hfirst : l.entries.head?.map (·.serial) = firstOr l.entries none := by
    cases l.entries <;> rfl
  rw [hch.newest, hfirst]
  exact ⟨Queue.olderWalkWithin_eq_ok hch.linked hsteps, Queue.newerWalkWithin_eq_ok hch.linked hsteps⟩

end Follows

/-- **After every act of every client, the walk from the newest entry and the walk from the oldest one
meet the entries of the plain sequence after the same acts, each of them once and in opposite orders;
the oldest is a snapshot; the counter of waiting handles counts those of the sequence, so that as many
as leave with a snapshot can be taken from it; and together with those that have left it counts every
deletion that had to wait.** Only the counter of those that have left can be full, which takes as many
deletions as a word can count. -/
theorem chain_is_sequence (number : Nat) (kind : LockKind) (acts : List (Session.Act α)) :
    let s := (Session.start number kind).run acts
    let l := Sequence.run number acts
    (∀ steps, l.entries.length ≤ steps →
      s.queue.olderWalkWithin steps s.queue.newest = .ok (l.entries.reverse.map (·.serial)) ∧
      s.queue.newerWalkWithin steps (l.entries.head?.map (·.serial)) =
        .ok (l.entries.map (·.serial))) ∧
    Queue.entries.run s.queue = .ok l.entries.reverse s.queue ∧
    (l.entries.map (·.serial)).Nodup ∧
    (∀ e, l.entries.head? = some e → e.isSnapshot = true) ∧
    s.queue.stats.pending = l.entries.countP isHandle ∧
    (∀ e, (leaving l.entries e).length ≤ s.queue.stats.pending) ∧
    (∀ fault ∈ s.faults, fault = .addOverflow) ∧
    (l.deferred < wordBound →
      s.faults = [] ∧ s.queue.stats.pending + s.queue.stats.reclaimed = l.deferred) := by
  intro s l
  have hf : Follows number s l := (Follows.start number kind).run (Session.sound_start number kind) acts
  have ho := hf.orderly
  refine ⟨fun _ hsteps => hf.walks hsteps, Queue.run_entries ho, ho.chain.nodup, ho.oldest, ho.pending,
    fun e => ?_, hf.overflow, fun hword => ?_⟩
  · rw [ho.pending, ← List.countP_eq_length.2 fun _ hh => isHandle_of_leaving hh]
    exact (leaving_sublist l.entries e).countP_le
  · obtain ⟨hfaults, hcount⟩ := hf.counted.resolve_right (Nat.not_le_of_lt hword)
    rw [ho.pending]
    exact ⟨hfaults, hcount⟩

end RopeStore.Deferral
