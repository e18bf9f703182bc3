import Mathlib.Algebra.Ring.Nat
import Mathlib.Data.List.Basic
import Mathlib.Logic.Function.Iterate
import RopeStore.Proofs.Deferral.Session
import RopeStore.Proofs.Deferral.Threads

/-!
# Destructors that use the queue

A payload is destroyed in the middle of an operation, and its destructor may perform operations on the
same queue, whose payloads may do the same. So there is a stack of calls: below a destructor stands the
operation that destroys its payload, and has other payloads to destroy when the destructor returns.

* `Queue.defers` : a deletion until it is known whether the payload is to be destroyed now;
* `Cascade`, `Cascade.Move`, `Cascade.step`, `Cascade.run` : a queue with the calls that are under way,
  and what the innermost of them can do. A list of moves is a run in which every destructor performs
  whatever operations it likes, to any depth;
* `Cascade.quiet` : where no destructor does anything, a call is the operation of `Session`;
* `Cascade.Sound` : what every move keeps, also between the payloads of one operation;
* `Cascade.exists_returns` : all calls return, once the destructors come to an end;
* `destructors_may_reenter` : what holds after every list of moves.
-/

namespace RopeStore.Deferral
variable {α β : Type} {q q' : Queue α} {xs doomed : List EntryId} {h : EntryId} {c : Chronicle α}

/-! ## The deletion in two parts -/

namespace Queue

/-- Puts a handle into the chain, unless that is empty. The answer is whether the payload has to
wait. -/
def defers (handle : EntryId) : QueueM α Bool := do
  if (← get).isEmpty then return false
  locked (appendIfWatched handle)

theorem run_defers_of_isEmpty (hempty : q.isEmpty = true) (handle : EntryId) :
    (defers handle).run q = .ok false q := by
  rw [defers, run_bind_of_run_eq_ok (EStateM.run_get q), hempty]
  rfl

theorem run_defers (hempty : q.isEmpty = false) (handle : EntryId) :
    (defers handle).run q = (locked (appendIfWatched handle)).run q := by
  rw [defers, run_bind_of_run_eq_ok (EStateM.run_get q), hempty]
  rfl

theorem run_delete_eq (q : Queue α) (handle : EntryId) :
    (delete handle).run q = (do
      if ← defers handle then return none
      return some (← takePayload handle) : QueueM α (Option α)).run q := by
  rw [delete, run_bind_of_run_eq_ok (EStateM.run_get q)]
  cases hempty : q.isEmpty with
  | true =>
    rw [run_bind_of_run_eq_ok (run_defers_of_isEmpty hempty handle)]
    rfl
  | false =>
    show (locked (appendIfWatched handle) >>= _ : QueueM α _).run q = _
    rw [EStateM.run_bind, EStateM.run_bind, run_defers hempty]

end Queue

/-! ## Calls within calls -/

/-- A queue with the calls that are under way. -/
structure Cascade (α : Type) where
  queue : Queue α
  /-- What each call is about to do, the innermost first. The last one is the client, the other idle
  ones are destructors; each of these stands above the call that destroys its payload. -/
  calls : List Task
  chronicle : Chronicle α
  faults : List Fault

namespace Cascade
variable {s : Cascade α} {calls : List Task}

inductive Move (α : Type)
  | call (act : Session.Act α)
  | proceed

def start (number : Nat) (kind : LockKind) : Cascade α := ⟨.new number kind, [.idle], .empty, []⟩

/-- The cascade after a step with this end. A fault stops the call that had it, above `below`. -/
def after (s : Cascade α) (next : β → List Task) (c : β → Chronicle α) (below : List Task)
    (failed : Chronicle α) : EStateM.Result Fault (Queue α) β → Cascade α
  | .ok answer queue => { s with queue, calls := next answer, chronicle := c answer }
  | .error fault queue => ⟨queue, .stopped :: below, failed, fault :: s.faults⟩

/-- An operation is called, and performed as far as the first payload that it destroys. Handles and
snapshots that do not live are nobody's. -/
def call (s : Cascade α) : Session.Act α → Cascade α
  | .openSnapshot =>
    s.after (fun _ => s.calls) s.chronicle.opens s.calls s.chronicle
      (Queue.openSnapshot.run s.queue)
  | .newHandle payload =>
    s.after (fun _ => s.calls) (s.chronicle.makes · payload) s.calls s.chronicle
      ((Queue.newHandle payload).run s.queue)
  | .deleteHandle h =>
    if h ∈ s.chronicle.handles then
      s.after (fun deferred => if deferred then s.calls else .destroying [h] none :: s.calls)
        (fun _ => s.chronicle.deletes h) s.calls (s.chronicle.deletes h)
        ((Queue.defers h).run s.queue)
    else s
  | .dropSnapshot e =>
    if e ∈ s.chronicle.snapshots then
      s.after (.destroying · (some e) :: s.calls) (fun _ => s.chronicle.closes e) s.calls
        (s.chronicle.closes e) ((Queue.locked (Queue.removeSnapshot e)).run s.queue)
    else s

/-- The innermost call goes on. An operation that takes a payload has its destructor called. -/
def proceed (s : Cascade α) : Cascade α :=
  match s.calls with
  | .destroying (h :: rest) own :: below =>
    s.after (fun _ => .idle :: .destroying rest own :: below)
      (fun payload => s.chronicle.drops [(h, payload)]) below s.chronicle
      ((Queue.takePayload h).run s.queue)
  | .destroying [] (some e) :: below =>
    s.after (fun _ => .destroying [] none :: below) (fun _ => s.chronicle) below s.chronicle
      ((Queue.destroy e.serial).run s.queue)
  | .destroying [] none :: below => { s with calls := below }
  | .idle :: t :: below => { s with calls := t :: below }
  | _ => s

/-- A move. Only the client and destructors call operations. -/
def step (s : Cascade α) : Move α → Cascade α
  | .call act => if s.calls.head? = some .idle then s.call act else s
  | .proceed => s.proceed

def run (s : Cascade α) (moves : List (Move α)) : Cascade α := moves.foldl step s

end Cascade

/-! ## What every move keeps -/

/-- A call that is about to do nothing with the queue changes nothing for the others. -/
theorem Works.idle_cons_iff {tasks : List Task} : Works q (.idle :: tasks) c ↔ Works q tasks c := by
  have hstopped : Task.stopped ∈ Task.idle :: tasks ↔ Task.stopped ∈ tasks := by simp
  constructor
  · intro hw
    obtain ⟨xs, lost, hk, hlost⟩ := hw.kept
    exact ⟨⟨xs, lost, hk, hlost.imp_right hstopped.1⟩, hw.deciding, hw.undecided,
      fun t ht => hw.formed t (List.mem_cons_of_mem _ ht), fun hs => hw.stopped (hstopped.2 hs)⟩
  · intro hw
    obtain ⟨xs, lost, hk, hlost⟩ := hw.kept
    refine ⟨⟨xs, lost, hk, hlost.imp_right hstopped.2⟩, hw.deciding, hw.undecided, ?_,
      fun hs => hw.stopped (hstopped.1 hs)⟩
    intro t ht
    rcases List.mem_cons.1 ht with rfl | ht
    · trivial
    · exact hw.formed t ht

namespace Kept

/-- A deletion keeps the handle in the chain or has it destroyed at once. -/
theorem ends_defers (hk : Kept q xs doomed c) (hh : h ∈ c.handles) :
    Ends (Queue.defers h) q fun deferred q' =>
      ∃ xs', Kept q' xs' ((if deferred then [] else [h]) ++ doomed) (c.deletes h) := by
  have hempty := hk.timeline.orderly.isEmpty_eq
  rcases xs with _ | ⟨x, rest⟩
  · exact ends_of_run_eq_ok (Queue.run_defers_of_isEmpty hempty h) ⟨[], hk.passes hh⟩
  · obtain ⟨q', hrun, hk'⟩ := hk.joins hh (List.cons_ne_nil x rest)
    rw [← Queue.run_defers hempty] at hrun
    exact ends_of_run_eq_ok hrun ⟨_, hk'⟩

end Kept

namespace Cascade
variable {s : Cascade α} {calls below : List Task} {t : Task}

/-- The chronicle is right, also in the middle of an operation; the client is at the bottom; and only
a count that is full makes an operation fault. -/
structure Sound (s : Cascade α) : Prop where
  works : Works s.queue s.calls s.chronicle
  decided : s.calls.flatMap Task.deciding = []
  bottom : s.calls.getLast? = some .idle
  faults : s.faults = [] ∨ wordBound ≤ s.chronicle.deleted.length
  overflow : ∀ fault ∈ s.faults, fault = .addOverflow

theorem sound_start (number : Nat) (kind : LockKind) : (start number kind : Cascade α).Sound where
  works := World.sound_start 1 number kind
  decided := rfl
  bottom := rfl
  faults := .inl rfl
  overflow := fun _ hfault => absurd hfault List.not_mem_nil

theorem after_of_leaves {op : QueueM α β} {next : β → List Task} {c : β → Chronicle α}
    {failed : Chronicle α} {p : Cascade α → Prop}
    (hop : Leaves op s.queue
      (fun answer queue => p { s with queue, calls := next answer, chronicle := c answer })
      fun fault queue => p ⟨queue, .stopped :: below, failed, fault :: s.faults⟩) :
    p (s.after next c below failed (op.run s.queue)) := by
  unfold Leaves at hop
  split at hop <;> rename_i heq <;> rw [heq] <;> exact hop

theorem Sound.goesOn (hs : s.Sound) {c' : Chronicle α} (hw : Works q' calls c')
    (hdecided : calls.flatMap Task.deciding = []) (hbottom : calls.getLast? = some .idle)
    (hevents : s.chronicle.events.Sublist c'.events) :
    Sound { s with queue := q', calls := calls, chronicle := c' } where
  works := hw
  decided := hdecided
  bottom := hbottom
  faults := by
    refine hs.faults.imp_right fun hword => hword.trans ?_
    rw [Chronicle.length_deleted, Chronicle.length_deleted]
    exact hevents.countP_le
  overflow := hs.overflow

theorem bottom_cons (t : Task) (hbottom : calls.getLast? = some .idle) :
    (t :: calls).getLast? = some .idle := by
  cases calls with
  | nil => cases hbottom
  | cons t' below => rwa [List.getLast?_cons_cons]

theorem Sound.call (hs : s.Sound) (act : Session.Act α) : (s.call act).Sound := by
  -- The operation is a call of its own above those that are under way.
  have hw := Works.idle_cons_iff.2 hs.works
  obtain ⟨xs, lost, hk, hlost⟩ := hw.kept_cons (by simp)
  cases act with
  | openSnapshot =>
    obtain ⟨e, q', hrun, hk'⟩ := hk.opens
    have hw' : Works q' (.idle :: s.calls) (s.chronicle.opens e) := hw.keep hk' (Or.inl hlost)
      trivial rfl (fun _ hh => hh) (List.sublist_append_left _ _) (by simp)
    have hsound := hs.goesOn (Works.idle_cons_iff.1 hw') hs.decided hs.bottom
      (List.sublist_append_left _ _)
    exact after_of_leaves (p := Sound) (leaves_of_run_eq_ok hrun hsound)
  | newHandle payload =>
    obtain ⟨h, q', hrun, hk'⟩ := hk.makes payload
    have hw' : Works q' (.idle :: s.calls) (s.chronicle.makes h payload) := hw.keep hk'
      (Or.inl hlost) trivial rfl (fun _ hh => List.mem_cons_of_mem _ hh) (List.Sublist.refl _)
      (by simp)
    have hsound := hs.goesOn (Works.idle_cons_iff.1 hw') hs.decided hs.bottom (List.Sublist.refl _)
    rw [Cascade.call]
    exact after_of_leaves (p := Sound) (leaves_of_run_eq_ok hrun hsound)
  | deleteHandle h =>
    by_cases hh : h ∈ s.chronicle.handles
    · rw [Cascade.call, if_pos hh]
      have hother : h ∉ s.calls.flatMap Task.deciding := by
        rw [hs.decided]
        exact List.not_mem_nil
      refine after_of_leaves (p := Sound) ((hk.ends_defers hh).mono ?_).leaves
      rintro deferred q' ⟨xs', hk'⟩
      cases deferred with
      | true =>
        exact hs.goesOn (Works.idle_cons_iff.1 (hw.decide hk' hlost (by simp) trivial rfl hother))
          hs.decided hs.bottom (List.sublist_append_left _ _)
      | false =>
        refine hs.goesOn (hw.decide hk' hlost (by simp) ⟨fun h' hh' => ?_, by simp⟩ rfl hother)
          hs.decided (bottom_cons _ hs.bottom) (List.sublist_append_left _ _)
        rw [List.mem_singleton.1 hh']
        exact hk.isHandle_of_live hh
    · rw [Cascade.call, if_neg hh]
      exact hs
  | dropSnapshot e =>
    by_cases he : e ∈ s.chronicle.snapshots
    · rw [Cascade.call, if_pos he]
      obtain ⟨hin, hsnap⟩ := (hk.live e).1 he
      have hoverflow := (Queue.leaves_removeSnapshot hk.timeline.orderly hin hsnap).mono
        (fun _ _ _ => trivial) fun _ _ hbad => hbad.1
      refine after_of_leaves (p := Sound) (((hk.leaves he).and hoverflow).mono ?_ ?_)
      · rintro gone q' ⟨⟨rfl, hk'⟩, -⟩
        have hdoomed : leaving xs e ++ e :: (s.calls.flatMap Task.doomed ++ lost) =
            (Task.destroying (leaving xs e) (some e)).doomed ++
              (s.calls.flatMap Task.doomed ++ lost) := by
          simp [Task.doomed]
        rw [show Task.idle.doomed ++ (s.calls.flatMap Task.doomed ++ lost) =
          s.calls.flatMap Task.doomed ++ lost from rfl, hdoomed] at hk'
        refine hs.goesOn (hw.keep hk' (Or.inl hlost) ⟨fun h hh => isHandle_of_leaving hh, ?_⟩ rfl
          (fun _ hh => hh) (List.Sublist.refl _) (by simp)) hs.decided (bottom_cons _ hs.bottom)
          (List.Sublist.refl _)
        rintro e' ⟨⟩
        exact hsnap
      · rintro fault q' ⟨⟨hk', hword⟩, rfl⟩
        have hdoomed : (leaving xs e ++ e :: (s.calls.flatMap Task.doomed ++ lost)).Perm
            (s.calls.flatMap Task.doomed ++ (lost ++ (leaving xs e ++ [e]))) := by
          rw [List.append_cons, ← List.append_assoc _ lost]
          exact List.perm_append_comm
        have hw' : Works q' (.stopped :: s.calls) (s.chronicle.closes e) := hw.keep
          (hk'.perm hdoomed) (Or.inr rfl) trivial rfl (fun _ hh => hh) (List.Sublist.refl _)
          fun _ => hword
        exact ⟨hw', hs.decided, bottom_cons _ hs.bottom, Or.inr hword,
          fun fault hfault => (List.mem_cons.1 hfault).elim id (hs.overflow fault)⟩
    · rw [Cascade.call, if_neg he]
      exact hs

/-- What is to be destroyed is there, and then its destructor is called. -/
theorem Sound.run_takePayload (hs : s.Sound) {rest : List EntryId} {own : Option EntryId}
    (hcalls : s.calls = .destroying (h :: rest) own :: below) :
    ∃ payload q', (Queue.takePayload h).run s.queue = .ok payload q' ∧
      Works q' (.idle :: .destroying rest own :: below) (s.chronicle.drops [(h, payload)]) := by
  have hw := hs.works
  rw [hcalls] at hw
  have hformed := hw.formed _ List.mem_cons_self
  obtain ⟨xs, lost, hk, hlost⟩ := hw.kept_cons (by simp)
  obtain ⟨payload, q', hrun, hk'⟩ := hk.takes (hformed.1 h List.mem_cons_self)
  exact ⟨payload, q', hrun, Works.idle_cons_iff.2 (hw.keep hk' (Or.inl hlost)
    ⟨fun h' hh' => hformed.1 h' (List.mem_cons_of_mem _ hh'), hformed.2⟩ rfl (fun _ hh => hh)
    (List.Sublist.refl _) (by simp))⟩

theorem Sound.run_destroy (hs : s.Sound) {e : EntryId}
    (hcalls : s.calls = .destroying [] (some e) :: below) :
    ∃ content q', (Queue.destroy e.serial).run s.queue = .ok content q' ∧
      Works q' (.destroying [] none :: below) s.chronicle := by
  have hw := hs.works
  rw [hcalls] at hw
  obtain ⟨xs, lost, hk, hlost⟩ := hw.kept_cons (by simp)
  obtain ⟨content, q', hrun, hk'⟩ := hk.frees ((hw.formed _ List.mem_cons_self).2 e rfl)
  exact ⟨content, q', hrun, hw.keep hk' (Or.inl hlost) ⟨by simp, by simp⟩ rfl (fun _ hh => hh)
    (List.Sublist.refl _) (by simp)⟩

/-- How many moves a call makes when the destructors do nothing. -/
def weight : Task → Nat
  | .destroying handles own => 2 * handles.length + own.toList.length + 1
  | _ => 1

/-- The calls come one move closer to their end, unless they are there, or one of them had a fault. -/
theorem Sound.proceeds (hs : s.Sound) :
    s.proceed = s ∧ (s.calls = [.idle] ∨ Task.stopped ∈ s.calls) ∨
    ∃ q' calls c', s.proceed = { s with queue := q', calls := calls, chronicle := c' } ∧
      Works q' calls c' ∧ calls.flatMap Task.deciding = [] ∧ calls.getLast? = some .idle ∧
      c'.events = s.chronicle.events ∧ (calls.map weight).sum + 1 = (s.calls.map weight).sum := by
  have hdecided := hs.decided
  have hbottom := hs.bottom
  have hw := hs.works
  rcases hcalls : s.calls with _ | ⟨t, below⟩
  · rw [hcalls] at hbottom
    cases hbottom
  rw [hcalls] at hdecided hbottom hw
  rw [List.flatMap_cons, List.append_eq_nil_iff] at hdecided
  cases t with
  | deleting h => cases hdecided.1
  | stopped =>
    refine Or.inl ⟨?_, Or.inr List.mem_cons_self⟩
    rw [Cascade.proceed, hcalls]
  | idle =>
    rcases below with _ | ⟨t', below⟩
    · refine Or.inl ⟨?_, Or.inl rfl⟩
      rw [Cascade.proceed, hcalls]
    · rw [List.getLast?_cons_cons] at hbottom
      refine Or.inr ⟨s.queue, t' :: below, s.chronicle, ?_, Works.idle_cons_iff.1 hw, hdecided.2,
        hbottom, rfl, ?_⟩
      · rw [Cascade.proceed, hcalls]
      · exact Nat.add_comm _ 1
  | destroying handles own =>
    -- The client is below a call that destroys something.
    have hbelow : below.getLast? = some .idle := by
      cases below with
      | nil => cases hbottom
      | cons t' below => rwa [List.getLast?_cons_cons] at hbottom
    rcases handles with _ | ⟨h, rest⟩
    · cases own with
      | none =>
        obtain ⟨xs, lost, hk, hlost⟩ := hw.kept_cons (by simp)
        have hw' : Works s.queue (.idle :: below) s.chronicle := hw.keep hk (Or.inl hlost) trivial
          rfl (fun _ hh => hh) (List.Sublist.refl _) (by simp)
        refine Or.inr ⟨s.queue, below, s.chronicle, ?_, Works.idle_cons_iff.1 hw', hdecided.2,
          hbelow, rfl, ?_⟩
        · rw [Cascade.proceed, hcalls]
        · exact Nat.add_comm _ 1
      | some e =>
        obtain ⟨content, q', hrun, hw'⟩ := hs.run_destroy hcalls
        refine Or.inr ⟨q', .destroying [] none :: below, s.chronicle, ?_, hw', hdecided.2,
          bottom_cons _ hbelow, rfl, ?_⟩
        · rw [Cascade.proceed, hcalls]
          show s.after _ _ _ _ ((Queue.destroy e.serial).run s.queue) = _
          rw [hrun]
          rfl
        · simp only [List.map_cons, List.sum_cons, weight, List.length_nil, Option.toList_none,
            Option.toList_some, List.length_singleton]
          omega
    · obtain ⟨payload, q', hrun, hw'⟩ := hs.run_takePayload hcalls
      refine Or.inr ⟨q', .idle :: .destroying rest own :: below, s.chronicle.drops [(h, payload)], ?_,
        hw', hdecided.2, bottom_cons _ (bottom_cons _ hbelow), rfl, ?_⟩
      · rw [Cascade.proceed, hcalls]
        show s.after _ _ _ _ ((Queue.takePayload h).run s.queue) = _
        rw [hrun]
        rfl
      · simp only [List.map_cons, List.sum_cons, weight, List.length_cons]
        omega

theorem Sound.step (hs : s.Sound) (move : Move α) : (s.step move).Sound := by
  cases move with
  | call act =>
    rw [Cascade.step]
    split
    · exact hs.call act
    · exact hs
  | proceed =>
    rw [Cascade.step]
    rcases hs.proceeds with ⟨heq, -⟩ | ⟨q', calls, c', heq, hw, hdecided, hbottom, hevents, -⟩
    · rwa [heq]
    · rw [heq]
      exact hs.goesOn hw hdecided hbottom (by rw [hevents])

theorem Sound.run (hs : s.Sound) (moves : List (Move α)) : (s.run moves).Sound := by
  induction moves generalizing s with
  | nil => exact hs
  | cons move rest ih => exact ih (hs.step move)

/-- Where no count is full, all calls return when the destructors have done what they do. -/
theorem Sound.exists_returns (hs : s.Sound) (hword : s.chronicle.deleted.length < wordBound) :
    ∃ n, (proceed^[n] s).calls = [.idle] := by
  generalize hn : (s.calls.map weight).sum = n
  induction n generalizing s with
  | zero =>
    rcases hs.proceeds with ⟨-, hend | hstop⟩ | ⟨_, _, _, -, -, -, -, -, hweight⟩
    · exact ⟨0, hend⟩
    · exact absurd (hs.works.stopped hstop) (Nat.not_le_of_lt hword)
    · omega
  | succ n ih =>
    have hstep := hs.step .proceed
    rcases hs.proceeds with ⟨-, hend | hstop⟩ | ⟨q', calls, c', heq, -, -, -, hevents, hweight⟩
    · exact ⟨0, hend⟩
    · exact absurd (hs.works.stopped hstop) (Nat.not_le_of_lt hword)
    · rw [Cascade.step, heq] at hstep
      have hword' : c'.deleted.length < wordBound := by
        rwa [Chronicle.deleted, hevents]
      obtain ⟨m, hm⟩ := ih hstep hword' (Nat.succ.inj (hweight.trans hn))
      refine ⟨m + 1, ?_⟩
      rw [Function.iterate_succ_apply, heq]
      exact hm

/-! ## Destructors that do nothing -/

theorem iterate_proceed_destroying {handles : List EntryId} {taken : List (EntryId × α)}
    {own : Option EntryId} {faults : List Fault}
    (hrun : (handles.mapM fun handle => return (handle, ← Queue.takePayload handle)).run q =
      .ok taken q') :
    proceed^[2 * handles.length] ⟨q, .destroying handles own :: below, c, faults⟩ =
      ⟨q', .destroying [] own :: below, c.drops taken, faults⟩ := by
  induction handles generalizing q c taken with
  | nil =>
    obtain ⟨rfl, rfl⟩ : [] = taken ∧ q = q' := by
      cases hrun
      exact ⟨rfl, rfl⟩
    rw [Chronicle.drops_nil]
    rfl
  | cons h rest ih =>
    rw [List.mapM_cons] at hrun
    obtain ⟨p, q₁, hfirst, hrun⟩ := run_bind_eq_ok_iff.1 hrun
    obtain ⟨payload, q₂, htake, hpair⟩ := run_bind_eq_ok_iff.1 hfirst
    cases hpair
    obtain ⟨others, q₂, hrest, hlist⟩ := run_bind_eq_ok_iff.1 hrun
    cases hlist
    -- The payload is taken, and its destructor returns.
    have hround : proceed^[2] ⟨q, .destroying (h :: rest) own :: below, c, faults⟩ =
        ⟨q₁, .destroying rest own :: below, c.drops [(h, payload)], faults⟩ := by
      show proceed (after _ _ _ _ _ ((Queue.takePayload h).run q)) = _
      rw [htake]
      rfl
    rw [List.length_cons, Nat.mul_succ, Function.iterate_add_apply, hround, ih hrest,
      Chronicle.drops_drops]
    rfl

theorem ok_of_after {session : Session α} {f : β → Chronicle α} {failed : Chronicle α}
    {outcome : EStateM.Result Fault (Queue α) β}
    (h : session.after f failed outcome = ⟨q', c, []⟩) :
    ∃ answer, outcome = .ok answer q' ∧ f answer = c := by
  cases outcome with
  | ok answer queue =>
    injection h with hqueue hchronicle
    exact ⟨answer, by rw [hqueue], hchronicle⟩
  | error fault queue => cases h

/-- **Where no destructor does anything, a call is the operation.** -/
theorem quiet {act : Session.Act α} (hcalls : s.calls = .idle :: below)
    (hact : (⟨s.queue, s.chronicle, []⟩ : Session α).step act = ⟨q', c, []⟩) :
    ∃ n, proceed^[n] (s.step (.call act)) = { s with queue := q', chronicle := c } := by
  rw [Cascade.step, if_pos (by rw [hcalls]; rfl)]
  cases act with
  | openSnapshot =>
    obtain ⟨e, hrun, rfl⟩ := ok_of_after hact
    rw [Cascade.call, hrun]
    exact ⟨0, rfl⟩
  | newHandle payload =>
    rw [Session.step] at hact
    obtain ⟨h, hrun, rfl⟩ := ok_of_after hact
    rw [Cascade.call, hrun]
    exact ⟨0, rfl⟩
  | deleteHandle h =>
    by_cases hh : h ∈ s.chronicle.handles
    · rw [Session.step, if_pos hh] at hact
      obtain ⟨taken, hrun, rfl⟩ := ok_of_after hact
      rw [Queue.run_delete_eq] at hrun
      obtain ⟨deferred, q₁, hdefers, hrun⟩ := run_bind_eq_ok_iff.1 hrun
      rw [Cascade.call, if_pos hh, hdefers]
      cases deferred with
      | true =>
        cases hrun
        refine ⟨0, ?_⟩
        show Cascade.mk _ _ (s.chronicle.deletes h) _ = Cascade.mk _ _ (Chronicle.drops _ []) _
        rw [Chronicle.drops_nil]
        rfl
      | false =>
        obtain ⟨payload, q₂, htake, hsome⟩ := run_bind_eq_ok_iff.1 hrun
        cases hsome
        refine ⟨3, ?_⟩
        show proceed^[2] (after _ _ _ _ _ ((Queue.takePayload h).run q₁)) = _
        rw [htake]
        rfl
    · rw [Session.step, if_neg hh] at hact
      rw [Cascade.call, if_neg hh]
      cases hact
      exact ⟨0, rfl⟩
  | dropSnapshot e =>
    by_cases he : e ∈ s.chronicle.snapshots
    · rw [Session.step, if_pos he] at hact
      obtain ⟨taken, hrun, rfl⟩ := ok_of_after hact
      obtain ⟨gone, q₁, hremove, hrun⟩ := run_bind_eq_ok_iff.1 hrun
      obtain ⟨taken', q₂, htake, hrun⟩ := run_bind_eq_ok_iff.1 hrun
      obtain ⟨content, q₃, hdestroy, hrun⟩ := run_bind_eq_ok_iff.1 hrun
      cases hrun
      rw [Cascade.call, if_pos he, hremove]
      -- There are two moves for each handle that left with the snapshot, and two for the snapshot.
      refine ⟨2 + 2 * gone.length, ?_⟩
      rw [Function.iterate_add_apply]
      show proceed^[2] (proceed^[_] ⟨q₁, .destroying gone (some e) :: s.calls, _, _⟩) = _
      rw [iterate_proceed_destroying htake]
      show proceed (after _ _ _ _ _ ((Queue.destroy e.serial).run q₂)) = _
      rw [hdestroy]
      rfl
    · rw [Session.step, if_neg he] at hact
      rw [Cascade.call, if_neg he]
      cases hact
      exact ⟨0, rfl⟩

/-- **Whatever operations the destructors perform, and the destructors of what these destroy, to any
depth: whenever a destructor starts or an operation is called, the lock is free, the chain is well
formed with a snapshot at its old end, and the counter of waiting handles is right; no payload is
dropped while a snapshot lives that was made before its deletion, and none is dropped twice; when all
calls have returned and no snapshot lives, every deleted payload was dropped and nothing waits; and all
calls return.** No operation faults, unless as many handles were deleted as a word can count. -/
theorem destructors_may_reenter (number : Nat) (kind : LockKind) (moves : List (Move α)) :
    let s := (start number kind).run moves
    s.queue.lock.held = false ∧
    (∃ chain, Orderly s.queue chain ∧ Queue.entries.run s.queue = .ok chain.reverse s.queue ∧
      (∀ e, e ∈ s.chronicle.snapshots ↔ e ∈ chain ∧ e.isSnapshot = true) ∧
      (∀ e, chain.head? = some e → e.isSnapshot = true) ∧
      s.queue.stats.pending = chain.countP isHandle) ∧
    (∀ h ∈ s.chronicle.deleted, s.chronicle.IsWatched h → ¬ s.chronicle.IsDropped h) ∧
    (s.chronicle.dropped.map (·.1)).Nodup ∧
    (∀ p ∈ s.chronicle.dropped, p ∈ s.chronicle.made ∧ p.1 ∈ s.chronicle.deleted) ∧
    (s.calls = [.idle] → s.chronicle.snapshots = [] →
      (∀ h ∈ s.chronicle.deleted, (s.chronicle.dropped.map (·.1)).count h = 1) ∧
      s.queue.isEmpty = true ∧ s.queue.stats.pending = 0) ∧
    (∀ fault ∈ s.faults, fault = .addOverflow) ∧
    (s.chronicle.deleted.length < wordBound →
      s.faults = [] ∧ ∃ n, (proceed^[n] s).calls = [.idle]) := by
  intro s
  have hs : s.Sound := (sound_start number kind).run moves
  obtain ⟨xs, lost, hk, hlost⟩ := hs.works.kept
  have ho := hk.timeline.orderly
  refine ⟨ho.free, ⟨xs, ho, Queue.run_entries ho, hk.live, ho.oldest, ho.pending⟩,
    fun h hh => hk.undropped_of_watched hh, hk.stock.once, fun p hp => hk.made_and_deleted hp, ?_,
    hs.overflow, fun hword =>
    ⟨hs.faults.resolve_right (Nat.not_le_of_lt hword), hs.exists_returns hword⟩⟩
  intro hend hnone
  obtain rfl := hk.chain_eq_nil_iff.2 hnone
  rw [hend] at hk hlost
  obtain rfl := hlost.resolve_right (by simp)
  exact ⟨fun h hh => hk.count_dropped_eq_one hh, hk.isEmpty_iff.2 hnone, ho.pending⟩

end Cascade
end RopeStore.Deferral
