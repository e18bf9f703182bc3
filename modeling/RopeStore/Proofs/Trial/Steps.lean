import Mathlib.Algebra.Ring.Nat
import Mathlib.Data.List.Basic
import RopeStore.Proofs.Heap.Lends
import RopeStore.Proofs.Outcome
import RopeStore.Trial.Run

/-!
# The steps of a trial

* `run_ensure`, `run_orFail`, `run_readHeap` : a check that holds and a look that succeeds change
  nothing;
* `preserves_*` : what only checks and looks keeps everything that can be said of a state, and a counter
  all that does not depend on it;
* `ends_onHeap`, `ends_onQueue` : an operation of the library changes the heap or the queue and nothing
  else, apart from what the heap tells of released nodes;
* `run_newKey`, `run_tick`, `run_exceeds` : the counters, as long as they are far from full.
-/

namespace RopeStore.Trial
variable {α : Type} {s : State}

/-! ## Checks and looks -/

theorem run_ensure {condition : Bool} (h : condition = true) (check : Check) :
    (ensure condition check).run s = .ok () s := by
  rw [h]
  rfl

theorem run_ensure_beq [BEq α] [LawfulBEq α] {a b : α} (h : a = b) (check : Check) :
    (ensure (a == b) check).run s = .ok () s :=
  run_ensure (beq_iff_eq.2 h) check

theorem run_orFail {outcome : Except Fault α} {a : α} (h : outcome = .ok a) :
    (orFail outcome).run s = .ok a s := by
  rw [h]
  rfl

theorem run_readHeap {read : Heap Nat → Except Fault α} {a : α} (h : read s.heap = .ok a) :
    (readHeap read).run s = .ok a s := by
  show (orFail (read s.heap)).run s = _
  exact run_orFail h

theorem leaves_bind_log {β : Type} {f : Unit → TrialM β} {good : β → State → Prop}
    {bad : Failure → State → Prop} (line : Line) :
    Leaves (log line >>= f) s good bad ↔ Leaves (f ()) { s with log := s.log.push line } good bad :=
  Iff.rfl

theorem ends_bind_log {β : Type} {f : Unit → TrialM β} {good : β → State → Prop} (line : Line) :
    Ends (log line >>= f) s good ↔ Ends (f ()) { s with log := s.log.push line } good :=
  leaves_bind_log line

/-- Where faults do not matter, a check may be taken to hold. -/
theorem leaves_ensure_bind {f : PUnit → TrialM α} {good : α → State → Prop} {condition : Bool}
    {check : Check} (h : Leaves (f ⟨⟩) s good fun _ _ => True) :
    Leaves (ensure condition check >>= f) s good fun _ _ => True := by
  cases condition with
  | true => exact h
  | false => exact trivial

/-- The room of a node is what is left of the capacity of a buffer that has one reference. -/
def roomOf (capacity : Option Nat) (unique : Bool) (length : Nat) : Except Fault Nat :=
  match capacity with
  | some capacity => if unique then checkedSub capacity length else .ok 0
  | none => .ok 0

/-- A trial looks up the room of a node in one step, whatever the node is. -/
theorem room_elim {motive : TrialM Bool → Prop} {capacity : Option Nat} {unique : Bool}
    {length : Nat} {f : Nat → TrialM Bool} :
    motive (orFail (roomOf capacity unique length) >>= f) →
    motive (match capacity with
      | some capacity =>
        if unique = true then do
          let room ← orFail (checkedSub capacity length)
          f room
        else do
          let room ← pure 0
          f room
      | none => do
        let room ← pure 0
        f room) := by
  intro h
  cases capacity with
  | none => exact h
  | some capacity => cases unique <;> exact h

/-! ## What is kept -/

section Preserves
variable {P : State → Prop}

theorem preserves_ensure (condition : Bool) (check : Check) : Preserves P (ensure condition check) := by
  cases condition with
  | true => exact preserves_pure _
  | false => exact preserves_throw _

theorem preserves_orFail (outcome : Except Fault α) : Preserves P (orFail outcome) := by
  cases outcome with
  | ok a => exact preserves_pure a
  | error cause => exact preserves_throw _

theorem preserves_readHeap (read : Heap Nat → Except Fault α) : Preserves P (readHeap read) :=
  preserves_get.bind fun _ => preserves_orFail _

theorem preserves_newKey (hkeys : ∀ s lastKey, P s → P { s with lastKey }) : Preserves P newKey := by
  refine preserves_get.bind fun s => ?_
  show Preserves _ (if keyBound ≤ s.lastKey + 1 then _ else _)
  split
  · exact (preserves_throw _).bind fun _ => fun s hs => hkeys s _ hs
  · exact fun s hs => hkeys s _ hs

theorem preserves_tick (hclock : ∀ s clock, P s → P { s with clock }) : Preserves P tick :=
  preserves_get.bind fun _ => (preserves_orFail _).bind fun _ => fun s hs => hclock s _ hs

theorem preserves_exceeds (limit length : Nat) : Preserves P (exceeds limit length) :=
  preserves_get.bind fun _ => (preserves_orFail _).bind fun _ =>
    (preserves_orFail _).bind fun _ => preserves_pure _

theorem preserves_kindOf (id : NodeId) : Preserves P (kindOf id) :=
  (preserves_readHeap _).bind fun _ => preserves_orFail _

theorem preserves_checkPart (source part : NodeId) (whole : Bool) :
    Preserves P (checkPart source part whole) := by
  unfold checkPart
  split
  · exact preserves_ensure _ _
  · refine preserves_get.bind fun s => ?_
    split
    · exact preserves_throw _
    · exact (preserves_kindOf _).bind fun _ => (preserves_ensure _ _).bind fun _ =>
        preserves_get.bind fun _ => preserves_ensure _ _

theorem preserves_checkNodes : Preserves P checkNodes :=
  preserves_get.bind fun _ => preserves_forM (fun _ =>
    (preserves_readHeap _).bind fun _ => (preserves_ensure _ _).bind fun _ =>
      (preserves_readHeap _).bind fun _ => (preserves_ensure _ _).bind fun _ =>
        preserves_get.bind fun _ => (preserves_readHeap _).bind fun _ => preserves_ensure _ _) _

end Preserves

/-! ## Operations of the library -/

/-- The state after an operation that left the heap as `h`: the owners that the heap tells of are those
of released nodes. -/
def State.settled (s : State) (h : Heap Nat) (lines : Array Line) : State :=
  { s with
    heap := { h with notices := [] }
    released := s.released ++ h.notices.filterMap Notice.owner?
    log := lines }

theorem ends_settle (s : State) :
    Ends settle s fun _ t => ∃ lines, t = s.settled s.heap lines := by
  refine (ends_forM (fun rest t => ∃ released lines,
      released ++ rest.filterMap Notice.owner? =
        s.released ++ s.heap.notices.filterMap Notice.owner? ∧
      t = { s with heap := { s.heap with notices := [] }, released, log := lines })
    ⟨s.released, s.log, rfl, rfl⟩ ?_).mono ?_
  · intro notice rest _ hafter
    obtain ⟨released, lines, hreleased, rfl⟩ := hafter
    have hnothing (hn : notice.owner? = none) : released ++ rest.filterMap Notice.owner? =
        s.released ++ s.heap.notices.filterMap Notice.owner? := by
      rw [← hreleased, List.filterMap_cons_none hn]
    cases notice with
    | returned bytes keeper =>
      cases keeper with
      | lent key =>
        refine ⟨released ++ [key], _, ?_, rfl⟩
        rw [← hreleased, List.filterMap_cons_some (show Notice.owner? _ = some key from rfl),
          List.append_assoc, List.singleton_append]
      | permanent => exact ⟨released, _, hnothing rfl, rfl⟩
      | copied => exact ⟨released, _, hnothing rfl, rfl⟩
    | freed size => exact ⟨released, _, hnothing rfl, rfl⟩
    | malformedTag tag => exact ⟨released, _, hnothing rfl, rfl⟩
    | viewOverView => exact ⟨released, _, hnothing rfl, rfl⟩
  · intro _ _ hafter
    obtain ⟨released, lines, hreleased, rfl⟩ := hafter
    rw [List.filterMap_nil, List.append_nil] at hreleased
    refine ⟨lines, ?_⟩
    rw [State.settled, hreleased]

theorem run_onHeap {op : HeapM Nat α} {a : α} {h : Heap Nat} (hop : op.run s.heap = .ok a h) :
    (onHeap op).run s = (do settle; return a : TrialM α).run { s with heap := h } := by
  rw [onHeap, run_bind_of_run_eq_ok (EStateM.run_get s), hop]
  rfl

theorem run_onHeap_of_run_eq_error {op : HeapM Nat α} {cause : Fault} {h : Heap Nat}
    (hop : op.run s.heap = .error cause h) :
    (onHeap op).run s =
      (do settle; throw (.fault cause) : TrialM α).run { s with heap := h } := by
  rw [onHeap, run_bind_of_run_eq_ok (EStateM.run_get s), hop]
  rfl

theorem ends_onHeap {op : HeapM Nat α} {good : α → Heap Nat → Prop} (hop : Ends op s.heap good) :
    Ends (onHeap op) s fun a t => ∃ h lines, good a h ∧ t = s.settled h lines := by
  obtain ⟨a, h, hrun, hgood⟩ := hop.run_eq_ok
  have hsettle : Ends (do settle; return a : TrialM α) { s with heap := h }
      fun b t => ∃ lines, b = a ∧ t = s.settled h lines := by
    apply (ends_settle { s with heap := h }).bind
    intro _ _ hafter
    obtain ⟨lines, rfl⟩ := hafter
    exact ⟨lines, rfl, rfl⟩
  rw [Ends, Leaves, run_onHeap hrun]
  apply hsettle.mono
  intro _ _ hafter
  obtain ⟨lines, rfl, rfl⟩ := hafter
  exact ⟨h, lines, hgood, rfl⟩

theorem run_onQueue {op : Deferral.QueueM Nat α} {a : α} {q : Deferral.Queue Nat}
    (hop : op.run s.queue = .ok a q) : (onQueue op).run s = .ok a { s with queue := q } := by
  rw [onQueue, run_bind_of_run_eq_ok (EStateM.run_get s), hop]
  rfl

theorem run_onQueue_of_run_eq_error {op : Deferral.QueueM Nat α} {cause : Fault}
    {q : Deferral.Queue Nat} (hop : op.run s.queue = .error cause q) :
    (onQueue op).run s = .error (.fault cause) { s with queue := q } := by
  rw [onQueue, run_bind_of_run_eq_ok (EStateM.run_get s), hop]
  rfl

theorem ends_onQueue {op : Deferral.QueueM Nat α} {good : α → Deferral.Queue Nat → Prop}
    (hop : Ends op s.queue good) :
    Ends (onQueue op) s fun a t => ∃ q, good a q ∧ t = { s with queue := q } := by
  obtain ⟨a, q, hrun, hgood⟩ := hop.run_eq_ok
  exact ends_of_run_eq_ok (run_onQueue hrun) ⟨q, hgood, rfl⟩

theorem run_isEmpty (s : State) :
    (onQueue (do return (← get).isEmpty)).run s = .ok s.queue.isEmpty s :=
  rfl

/-! ## Counters -/

theorem run_newKey (h : s.lastKey + 1 < keyBound) :
    newKey.run s = .ok (s.lastKey + 1) { s with lastKey := s.lastKey + 1 } := by
  rw [newKey, run_bind_of_run_eq_ok (EStateM.run_get s), if_neg (Nat.not_le_of_lt h)]
  rfl

theorem run_tick (h : s.clock + 1 < wordBound) :
    tick.run s = .ok (s.clock + 1) { s with clock := s.clock + 1 } := by
  have hadd : checkedAdd s.clock 1 = .ok (s.clock + 1) := if_pos h
  rw [tick, run_bind_of_run_eq_ok (EStateM.run_get s), run_bind_of_run_eq_ok (run_orFail hadd)]
  rfl

def State.payload (s : State) : Nat := (s.nodes.values.map (·.expected.length)).sum

theorem foldlM_checkedAdd_eq_ok {lives : List LiveNode} (total : Nat)
    (hsum : total + (lives.map (·.expected.length)).sum < wordBound) :
    lives.foldlM (fun total live => checkedAdd total live.expected.length) total =
      .ok (total + (lives.map (·.expected.length)).sum) := by
  induction lives generalizing total with
  | nil => rfl
  | cons live rest ih =>
    rw [List.map_cons, List.sum_cons] at hsum ⊢
    have hadd : checkedAdd total live.expected.length = .ok (total + live.expected.length) :=
      if_pos (by omega)
    rw [List.foldlM_cons, hadd]
    show List.foldlM _ (total + live.expected.length) rest = _
    rw [ih (total + live.expected.length) (by omega), Nat.add_assoc]

/-- The limit is asked about what is expected of all live nodes, if that is little enough to count. -/
theorem run_exceeds {length : Nat} (hword : s.payload + length < wordBound) (limit : Nat) :
    (exceeds limit length).run s = .ok (decide (limit < s.payload + length)) s := by
  have hfold : s.payloadBytes = .ok s.payload := by
    rw [State.payloadBytes, foldlM_checkedAdd_eq_ok 0 (by rw [State.payload] at hword; omega),
      Nat.zero_add, State.payload]
  have hadd : checkedAdd s.payload length = .ok (s.payload + length) := if_pos hword
  rw [exceeds, run_bind_of_run_eq_ok (EStateM.run_get s),
    run_bind_of_run_eq_ok (run_orFail hfold), run_bind_of_run_eq_ok (run_orFail hadd)]
  rfl

end RopeStore.Trial
