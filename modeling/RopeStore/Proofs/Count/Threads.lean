import Mathlib.Algebra.Ring.Nat
import Mathlib.Data.List.Infix
import Mathlib.Data.List.Induction
import Mathlib.Data.List.Perm.Basic
import RopeStore.Proofs.Count
import RopeStore.Proofs.Outcome

/-!
# Threads that share a count

Threads take and give up references to one mortal count at the same time. `increment`,
`decrementExpectHigh` and `isOne` are single atomic steps. `decrement` is two of them, a look and a
subtraction, and between these the other threads may do anything.

* `look`, `subtract`, `decrement_eq` : the two steps of `decrement`;
* `Team`, `Team.Move`, `Team.step`, `Team.run` : the threads with their references, an atomic step of
  one of them, and a schedule. References are handed over through a place where any thread may leave
  and find them;
* `Team.Told` : what a step says and does. `Sound` is what lets the next step say the truth too,
  `Recorded` is what follows of the whole record;
* `last_reference_told_once` : what holds after every schedule.
-/

namespace RopeStore.RefCount

/-! ## The two steps of giving up -/

/-- Looks whether there is exactly one reference, which has to be the caller's own. -/
def look : EStateM Fault RefCount Bool := do
  let seen ← load
  ofExcept (require .countHeld (holds seen))
  return seen == unit

/-- Takes one reference away; `false` says that it was the last one. -/
def subtract : EStateM Fault RefCount Bool := do return (← fetchSub) != unit

theorem decrement_eq : decrement = (do if ← look then return false else subtract) := by
  rw [decrement, look]
  simp only [bind_assoc, pure_bind, beq_iff_eq]
  rfl

theorem run_look_ofNat {k : Nat} (hpos : 0 < k) (h : k < bound) :
    look.run (ofNat k) = .ok (decide (k = 1)) (ofNat k) := by
  have hheld : require .countHeld (holds (ofNat k).packed) = .ok () := by
    rw [holds_packed_ofNat hpos h]
    rfl
  rw [look, run_bind_of_run_eq_ok (run_load _),
    run_bind_of_run_eq_ok (run_ofExcept_of_eq_ok hheld)]
  exact congrArg (EStateM.Result.ok · (ofNat k)) (isOne_ofNat h)

theorem run_subtract_ofNat {k : Nat} (h : k + 1 < bound) :
    subtract.run (ofNat (k + 1)) = .ok (decide (k ≠ 0)) (ofNat k) := by
  rw [subtract, run_bind_of_run_eq_ok (run_fetchSub _), packed_bne_unit (le_period h), ← ofNat_eq_pred]
  rfl

/-! ## Teams -/

/-- What a thread is about to do. -/
inductive Task
  | idle
  | subtracting
  | stopped
  deriving DecidableEq

structure Thread where
  owned : Nat
  task : Task
  deriving DecidableEq

/-- What is told of a call that has ended. -/
inductive Event
  | took
  /-- A reference was given up, and it was said whether there are more. -/
  | gaveUp (more : Bool)
  | asked (one : Bool)
  | failed (fault : Fault)
  deriving DecidableEq

/-- What an event says is so, with this many references before and after it. -/
def Event.IsTrue (before after : Nat) : Event → Prop
  | .took => after = before + 1
  | .gaveUp more => before = after + 1 ∧ (more = false ↔ after = 0)
  | .asked one => after = before ∧ (one = true ↔ before = 1)
  | .failed _ => False

def Event.isGivenUp : Event → Bool
  | .gaveUp _ => true
  | _ => false

namespace Event
variable {e : Event} {before after : Nat}

/-- Only the last reference is told to be the last. -/
theorem IsTrue.eq_gaveUp_false_iff (h : e.IsTrue before after) (hpos : 0 < before) :
    e = .gaveUp false ↔ after = 0 := by
  cases e with
  | took => exact iff_of_false (fun he => nomatch he) (h ▸ Nat.succ_ne_zero before)
  | gaveUp more => rw [Event.gaveUp.injEq, h.2]
  | asked one => exact iff_of_false (fun he => nomatch he) (h.1 ▸ Nat.ne_of_gt hpos)
  | failed fault => exact h.elim

theorem IsTrue.balance (h : e.IsTrue before after) :
    after + [e].countP isGivenUp = before + [e].count .took := by
  cases e with
  | took => exact h
  | gaveUp more => exact h.1.symm
  | asked one => exact h.1
  | failed fault => exact h.elim

end Event

/-- Threads and the count that they share. -/
structure Team where
  count : RefCount
  threads : List Thread
  /-- The references that were left for others and that nobody took yet. -/
  parked : Nat
  record : List Event

namespace Team

/-- An atomic step of a thread. -/
inductive Move
  | increment
  | decrement
  | decrementExpectHigh
  | isOne
  /-- Leaves a reference for others. -/
  | leave
  | pick
  | proceed

/-- Threads that own so many references each, and so many that lie between them. -/
def start (owned : List Nat) (parked : Nat) : Team :=
  ⟨ofNat (owned.sum + parked), owned.map (⟨·, .idle⟩), parked, []⟩

/-- All references that were taken and not given up. -/
def outstanding (t : Team) : Nat := (t.threads.map (·.owned)).sum + t.parked

/-- The team after thread `i` did an atomic step with this end. A fault stops the thread, which then
owns `owned` references. -/
def after {β : Type} (t : Team) (i owned : Nat) (next : β → Thread) (note : β → Option Event) :
    EStateM.Result Fault RefCount β → Team
  | .ok b count =>
    { t with count, threads := t.threads.set i (next b), record := t.record ++ (note b).toList }
  | .error fault count =>
    { t with
      count
      threads := t.threads.set i ⟨owned, .stopped⟩
      record := t.record ++ [.failed fault] }

/-- The thread `i`, which owns `left + 1` references, begins something. -/
def begin (t : Team) (i left : Nat) : Move → Team
  | .increment =>
    t.after i (left + 1) (fun _ => ⟨left + 2, .idle⟩) (fun _ => some .took)
      (RefCount.increment.run t.count)
  | .decrement =>
    t.after i (left + 1) (fun last => if last then ⟨left, .idle⟩ else ⟨left + 1, .subtracting⟩)
      (fun last => if last then some (.gaveUp false) else none) (look.run t.count)
  | .decrementExpectHigh =>
    t.after i left (fun _ => ⟨left, .idle⟩) (fun more => some (.gaveUp more))
      (RefCount.decrementExpectHigh.run t.count)
  | .isOne => { t with record := t.record ++ [.asked t.count.isOne] }
  | .leave => { t with threads := t.threads.set i ⟨left, .idle⟩, parked := t.parked + 1 }
  | .pick | .proceed => t

/-- A step of thread `i`. Who owns no reference can only take over one that was left, and who has
begun to give one up can only go on. -/
def step (t : Team) (i : Nat) (move : Move) : Team :=
  match t.threads[i]?, move with
  | some ⟨owned, .idle⟩, .pick =>
    if t.parked = 0 then t
    else { t with threads := t.threads.set i ⟨owned + 1, .idle⟩, parked := t.parked - 1 }
  | some ⟨left + 1, .idle⟩, move => t.begin i left move
  | some ⟨owned, .subtracting⟩, .proceed =>
    t.after i (owned - 1) (fun _ => ⟨owned - 1, .idle⟩) (fun more => some (.gaveUp more))
      (subtract.run t.count)
  | _, _ => t

/-- A schedule: whose turn it is, and what that thread does. -/
def run (t : Team) (schedule : List (Nat × Move)) : Team :=
  schedule.foldl (fun t turn => t.step turn.1 turn.2) t

theorem run_concat (t : Team) (schedule : List (Nat × Move)) (turn : Nat × Move) :
    t.run (schedule ++ [turn]) = (t.run schedule).step turn.1 turn.2 := by
  rw [run, List.foldl_append]
  rfl

/-! ## What a step says and does -/

/-- The step from `t` to `u` moved references around at most, or it ended a call of one that owned a
reference and what it says is so. -/
def Told (t u : Team) : Prop :=
  u.record = t.record ∧ u.outstanding = t.outstanding ∨
    ∃ e : Event, u.record = t.record ++ [e] ∧ 0 < t.outstanding ∧
      e.IsTrue t.outstanding u.outstanding

/-- Between two steps: the word counts the references, unless all of them are gone, and a thread that
is about to give one up owns one. -/
structure Sound (t : Team) : Prop where
  counted : t.outstanding ≠ 0 ∨ t.record = [] → t.count = ofNat t.outstanding
  busy : ∀ thread ∈ t.threads, thread.task = .subtracting → 0 < thread.owned

variable {t u : Team} {i owned owned' left parked' initial : Nat} {task task' : Task}
  {count' : RefCount} {record' : List Event}

theorem outstanding_of_set (hi : t.threads[i]? = some ⟨owned, task⟩)
    (hu : u = ⟨count', t.threads.set i ⟨owned', task'⟩, parked', record'⟩) :
    u.outstanding + (owned + t.parked) = t.outstanding + (owned' + parked') := by
  obtain ⟨hlt, hget⟩ := List.getElem?_eq_some_iff.1 hi
  have hbefore := ((List.getElem_cons_eraseIdx_perm hlt).map Thread.owned).sum_nat
  have hafter := ((List.set_perm_cons_eraseIdx hlt ⟨owned', task'⟩).map Thread.owned).sum_nat
  rw [hget, List.map_cons, List.sum_cons] at hbefore
  rw [List.map_cons, List.sum_cons] at hafter
  rw [hu, outstanding, outstanding, hafter, ← hbefore]
  dsimp only
  omega

theorem owned_le_outstanding (hi : t.threads[i]? = some ⟨owned, task⟩) : owned ≤ t.outstanding := by
  obtain ⟨u, hu⟩ : ∃ u : Team, u = ⟨t.count, t.threads.set i ⟨0, task⟩, t.parked, t.record⟩ :=
    ⟨_, rfl⟩
  have h := outstanding_of_set hi hu
  omega

theorem Sound.set (hs : t.Sound)
    (hu : u = ⟨count', t.threads.set i ⟨owned', task'⟩, parked', record'⟩)
    (hnext : task' = .subtracting → 0 < owned')
    (hcount : u.outstanding ≠ 0 ∨ record' = [] → count' = ofNat u.outstanding) : u.Sound where
  counted := by
    rw [congrArg record hu, congrArg count hu]
    exact hcount
  busy := by
    intro thread hmem hbusy
    rw [hu] at hmem
    rcases List.mem_or_eq_of_mem_set hmem with hmem | rfl
    · exact hs.busy thread hmem hbusy
    · exact hnext hbusy

/-- A step that takes one of the references of thread `i` away and says whether there are more. -/
theorem Sound.giveUp (hs : t.Sound) (hfew : t.outstanding < bound) {op : EStateM Fault RefCount Bool}
    (hop : ∀ k, k + 1 < bound → op.run (ofNat (k + 1)) = .ok (decide (k ≠ 0)) (ofNat k))
    (hi : t.threads[i]? = some ⟨left + 1, task⟩)
    (hu : u = t.after i left (fun _ => ⟨left, .idle⟩) (fun more => some (.gaveUp more))
      (op.run t.count)) : u.Sound ∧ Told t u := by
  have hle := owned_le_outstanding hi
  obtain ⟨k, hk⟩ : ∃ k, t.outstanding = k + 1 := Nat.exists_eq_add_one.2 (by omega)
  have hcount := hs.counted (.inl (by omega))
  rw [hk] at hcount hfew
  rw [hcount, hop k hfew, after] at hu
  have hkept := outstanding_of_set hi hu
  have hafter : u.outstanding = k := by omega
  refine ⟨hs.set hu (fun h => nomatch h) fun _ => by rw [hafter],
    .inr ⟨.gaveUp (decide (k ≠ 0)), congrArg record hu, by omega, ?_⟩⟩
  rw [hafter, hk, Event.IsTrue, decide_eq_false_iff_not, not_not]
  exact ⟨rfl, Iff.rfl⟩

theorem Sound.begin (hs : t.Sound) (hfew : t.outstanding < bound)
    (hi : t.threads[i]? = some ⟨left + 1, .idle⟩) {move : Move} (hu : u = t.begin i left move) :
    u.Sound ∧ Told t u := by
  have hle := owned_le_outstanding hi
  have hcount := hs.counted (.inl (by omega))
  cases move with
  | increment =>
    rw [Team.begin, hcount, run_increment_ofNat, after] at hu
    have hkept := outstanding_of_set hi hu
    have hafter : u.outstanding = t.outstanding + 1 := by omega
    exact ⟨hs.set hu (fun h => nomatch h) fun _ => by rw [hafter],
      .inr ⟨.took, congrArg record hu, by omega, hafter⟩⟩
  | decrement =>
    rw [Team.begin, hcount, run_look_ofNat (by omega) hfew, after] at hu
    by_cases hlast : t.outstanding = 1
    · rw [decide_eq_true hlast, if_pos rfl, if_pos rfl] at hu
      have hkept := outstanding_of_set hi hu
      have hafter : u.outstanding = 0 := by omega
      refine ⟨hs.set hu (fun h => nomatch h) fun h => ?_,
        .inr ⟨.gaveUp false, congrArg record hu, by omega, by omega, iff_of_true rfl hafter⟩⟩
      exact absurd h (not_or.2 ⟨not_not.2 hafter, List.append_ne_nil_of_right_ne_nil _ (by simp)⟩)
    · rw [decide_eq_false hlast, if_neg Bool.false_ne_true, if_neg Bool.false_ne_true,
        Option.toList_none, List.append_nil] at hu
      have hkept := outstanding_of_set hi hu
      have hafter : u.outstanding = t.outstanding := by omega
      exact ⟨hs.set hu (fun _ => Nat.succ_pos left) fun _ => by rw [hafter],
        .inl ⟨by rw [hu], hafter⟩⟩
  | decrementExpectHigh => exact hs.giveUp hfew (fun k hk => run_decrementExpectHigh_ofNat hk) hi hu
  | isOne =>
    rw [hu]
    refine ⟨⟨fun _ => hcount, hs.busy⟩, .inr ⟨_, rfl, by omega, rfl, ?_⟩⟩
    rw [hcount, isOne_ofNat hfew, decide_eq_true_eq]
  | leave =>
    have hkept := outstanding_of_set hi hu
    have hafter : u.outstanding = t.outstanding := by omega
    exact ⟨hs.set hu (fun h => nomatch h) fun _ => by rw [hafter, hcount],
      .inl ⟨by rw [hu]; rfl, hafter⟩⟩
  | pick | proceed =>
    rw [hu]
    exact ⟨hs, .inl ⟨rfl, rfl⟩⟩

theorem Sound.step (hs : t.Sound) (hfew : t.outstanding < bound) (i : Nat) (move : Move) :
    (t.step i move).Sound ∧ Told t (t.step i move) := by
  unfold Team.step
  split
  · rename_i owned hi
    split
    · exact ⟨hs, .inl ⟨rfl, rfl⟩⟩
    · rename_i hsome
      obtain ⟨u, hu⟩ : ∃ u, u = { t with
        threads := t.threads.set i ⟨owned + 1, .idle⟩, parked := t.parked - 1 } := ⟨_, rfl⟩
      have hkept := outstanding_of_set hi hu
      have hafter : u.outstanding = t.outstanding := by omega
      rw [← hu]
      exact ⟨hs.set hu (fun h => nomatch h) fun h => by rw [hafter, hs.counted (hafter ▸ h)],
        .inl ⟨by rw [hu], hafter⟩⟩
  · rename_i hi _
    exact hs.begin hfew hi rfl
  · rename_i owned hi
    obtain ⟨left, rfl⟩ := Nat.exists_eq_add_one.2 (hs.busy _ (List.mem_of_getElem? hi) rfl)
    exact hs.giveUp hfew (fun k hk => run_subtract_ofNat hk) hi rfl
  · exact ⟨hs, .inl ⟨rfl, rfl⟩⟩

/-! ## Every schedule -/

/-- What the record says of a team that had `initial` references at first. -/
structure Recorded (initial : Nat) (t : Team) : Prop where
  balance : t.outstanding + t.record.countP Event.isGivenUp = initial + t.record.count .took
  last : t.record.count (.gaveUp false) = if t.outstanding = 0 ∧ 0 < initial then 1 else 0
  begun : initial = 0 → t.record = []
  well : ∀ fault, .failed fault ∉ t.record

theorem outstanding_start (owned : List Nat) (parked : Nat) :
    (start owned parked).outstanding = owned.sum + parked := by
  rw [outstanding, start, List.map_map]
  exact congrArg (List.sum · + parked) (List.map_id owned)

theorem sound_start (owned : List Nat) (parked : Nat) : (start owned parked).Sound where
  counted := fun _ => by rw [outstanding_start]; rfl
  busy := by
    intro thread hmem hbusy
    obtain ⟨_, -, rfl⟩ := List.mem_map.1 hmem
    cases hbusy

theorem recorded_start (owned : List Nat) (parked : Nat) :
    (start owned parked).Recorded (owned.sum + parked) where
  balance := by
    rw [outstanding_start]
    rfl
  last := by
    rw [outstanding_start, if_neg fun h => Nat.ne_of_gt h.2 h.1]
    rfl
  begun := fun _ => rfl
  well := fun _ => List.not_mem_nil

theorem Recorded.told (hr : t.Recorded initial) (htold : Told t u) : u.Recorded initial := by
  obtain ⟨hrecord, hsame⟩ | ⟨e, hrecord, hpos, htrue⟩ := htold
  · exact ⟨by rw [hrecord, hsame, hr.balance], by rw [hrecord, hsame, hr.last],
      by rw [hrecord]; exact hr.begun, by rw [hrecord]; exact hr.well⟩
  have hbalance := hr.balance
  have hinitial : 0 < initial := by
    refine Nat.pos_of_ne_zero fun hzero => ?_
    rw [hr.begun hzero, List.countP_nil, List.count_nil] at hbalance
    omega
  have hlast := hr.last
  rw [if_neg fun h => Nat.ne_of_gt hpos h.1] at hlast
  refine ⟨?_, ?_, fun hzero => absurd hzero (Nat.ne_of_gt hinitial), fun fault hmem => ?_⟩
  · have hevent := htrue.balance
    rw [hrecord, List.countP_append, List.count_append]
    omega
  · rw [hrecord, List.count_append, List.count_singleton, hlast, Nat.zero_add]
    refine if_congr ?_ rfl rfl
    rw [beq_iff_eq, htrue.eq_gaveUp_false_iff hpos, and_iff_left hinitial]
  · rw [hrecord, List.mem_append, List.mem_singleton] at hmem
    refine hmem.elim (hr.well fault) ?_
    rintro rfl
    exact htrue

theorem Sound.run (hs : t.Sound) (hr : t.Recorded initial) (schedule : List (Nat × Move))
    (hfew : ∀ done, done <+: schedule → (t.run done).outstanding < bound) :
    (t.run schedule).Sound ∧ (t.run schedule).Recorded initial := by
  induction schedule using List.reverseRecOn with
  | nil => exact ⟨hs, hr⟩
  | append_singleton before turn ih =>
    obtain ⟨hs', hr'⟩ := ih fun done hdone => hfew done (hdone.trans (List.prefix_append ..))
    obtain ⟨hs'', htold⟩ := hs'.step (hfew before (List.prefix_append ..)) turn.1 turn.2
    rw [run_concat]
    exact ⟨hs'', hr'.told htold⟩

/-- **Whatever threads that own references do in whatever order, as long as there are fewer references
than a word can hold: each call that ends says what is so and none faults, the last reference is told
to be the last when it is given up and not again, and when as many were given up as were taken, the
count is what it was at first.** -/
theorem last_reference_told_once (owned : List Nat) (parked : Nat) (schedule : List (Nat × Move))
    (hfew : ∀ done, done <+: schedule → ((start owned parked).run done).outstanding < bound) :
    let initial := owned.sum + parked
    let t := (start owned parked).run schedule
    (∀ done turn, done ++ [turn] <+: schedule →
      Told ((start owned parked).run done) ((start owned parked).run (done ++ [turn]))) ∧
    (∀ fault, .failed fault ∉ t.record) ∧
    t.record.count (.gaveUp false) = (if t.outstanding = 0 ∧ 0 < initial then 1 else 0) ∧
    (t.record.countP Event.isGivenUp = t.record.count .took → t.count.get = initial) := by
  intro initial t
  have hsound (done : List (Nat × Move)) (hdone : done <+: schedule) :=
    (sound_start owned parked).run (recorded_start owned parked) done
      fun d hd => hfew d (hd.trans hdone)
  obtain ⟨hs, hr⟩ := hsound schedule List.prefix_rfl
  refine ⟨fun done turn hdone => ?_, hr.well, hr.last, fun hequal => ?_⟩
  · have hbefore : done <+: schedule := (List.prefix_append ..).trans hdone
    rw [run_concat]
    exact ((hsound done hbefore).1.step (hfew done hbefore) turn.1 turn.2).2
  · have hsame : t.outstanding = initial :=
      Nat.add_right_cancel (hr.balance.trans (congrArg (initial + ·) hequal.symm))
    have hcounted : t.count = ofNat t.outstanding := by
      refine hs.counted (or_iff_not_imp_left.2 fun hzero => hr.begun ?_)
      exact hsame.symm.trans (not_not.1 hzero)
    rw [hcounted, get_ofNat (hfew schedule List.prefix_rfl), hsame]

/-- Two threads own a reference each. The first one looks, the second one gives up its own, which is
not the last, and then the first one goes on. -/
def crossing : List (Nat × Move) :=
  [(0, .decrement), (1, .increment), (1, .decrementExpectHigh), (1, .decrementExpectHigh),
    (1, .isOne), (0, .proceed)]

/-- The look saw two references, but by the time of the subtraction there is one. -/
theorem last_reference_told_once_crossing :
    (∀ done, done <+: crossing → ((start [1, 1] 0).run done).outstanding < bound) ∧
      ((start [1, 1] 0).run crossing).record =
        [.took, .gaveUp true, .gaveUp true, .gaveUp false] ∧
      ((start [1, 1] 0).run crossing).record.count (.gaveUp false) = 1 := by
  have hfew : ∀ done, done <+: crossing → ((start [1, 1] 0).run done).outstanding < bound := by
    intro done hdone
    have hsmall : ∀ d ∈ crossing.inits, ((start [1, 1] 0).run d).outstanding < bound := by decide
    exact hsmall done ((List.mem_inits ..).2 hdone)
  exact ⟨hfew, by decide, (last_reference_told_once [1, 1] 0 crossing hfew).2.2.1⟩

end Team
end RopeStore.RefCount
