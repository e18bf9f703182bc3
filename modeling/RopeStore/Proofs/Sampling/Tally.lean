import Mathlib.Data.List.Basic
import Mathlib.Logic.Function.Basic
import RopeStore.Proofs.Sampling.Counters

/-!
# Counters as exact sums

Counters are added to counters, also to those of the same tracker.

* `Board` : trackers, and records with a tracker of their own; `Board.merge` : adds one tracker of a board
  to another, which may be the same. Each counter is read when its turn has come; `run_merge` : it makes
  no difference if they are all read before;
* `Puts b b' p t` : `b'` has the tracker `t` at one place, and otherwise those of `b`;
* `Call`, `Board.after` : the calls on a board, and what they leave, also where some of them fault;
* `exactSums` : the integers that the counters stand for if no call faults;
* `counters_are_exact` : what holds after all calls.
-/

namespace RopeStore.Sampling

/-- Trackers, and records with a tracker of their own. -/
structure Board (ι κ : Type) where
  trackers : ι → Tracker
  records : κ → Record

abbrev BoardM (ι κ : Type) := EStateM Fault (Board ι κ)

namespace Board
variable {ι κ α β : Type} {b b' : Board ι κ} {p q : ι ⊕ κ} {t : Tracker} {method m : Method}

/-- New trackers, and new records of values with these sizes. -/
def start (made : κ → Method) (sizes : κ → Nat) : Board ι κ :=
  ⟨fun _ => .zero, fun k => { Record.new (made k) with size := sizes k }⟩

def tracker (b : Board ι κ) : ι ⊕ κ → Tracker
  | .inl i => b.trackers i
  | .inr k => (b.records k).updates

def value (b : Board ι κ) (p : ι ⊕ κ) (method : Method) : Int := (b.tracker p).value method

def Ranged (b : Board ι κ) : Prop := ∀ p, (b.tracker p).Ranged

theorem ranged_start (made : κ → Method) (sizes : κ → Nat) :
    (start made sizes : Board ι κ).Ranged := by
  intro p
  cases p <;> exact Tracker.ranged_zero

theorem value_start (made : κ → Method) (sizes : κ → Nat) :
    (start made sizes : Board ι κ).value = fun _ _ => 0 := by
  funext p m
  cases p <;> exact Tracker.value_zero m

variable [DecidableEq κ]

def putRecord (b : Board ι κ) (k : κ) (r : Record) : Board ι κ :=
  { b with records := Function.update b.records k r }

def onRecord (k : κ) (op : EStateM Fault Record α) : BoardM ι κ α := fun b =>
  match op.run (b.records k) with
  | .ok a r => .ok a (b.putRecord k r)
  | .error fault r => .error fault (b.putRecord k r)

theorem run_onRecord (k : κ) (op : EStateM Fault Record α) (b : Board ι κ) :
    (onRecord k op).run b = match op.run (b.records k) with
      | .ok a r => .ok a (b.putRecord k r)
      | .error fault r => .error fault (b.putRecord k r) :=
  rfl

theorem run_update (b : Board ι κ) (k : κ) (method : Method) (size : Nat) :
    (onRecord k (Record.update method size)).run b =
      if InRange (b.value (.inr k) method + 1) then
        .ok () (b.putRecord k { b.records k with
          size
          updates := (b.records k).updates.put method (b.value (.inr k) method + 1) })
      else .error .addOverflow b := by
  rw [run_onRecord, Record.run_update]
  by_cases hsum : InRange ((b.records k).updates.value method + 1)
  · rw [if_pos hsum]
    exact (if_pos hsum).symm
  · rw [if_neg hsum]
    simp only [putRecord, Function.update_eq_self]
    exact (if_neg hsum).symm

variable [DecidableEq ι]

def putTracker (b : Board ι κ) : ι ⊕ κ → Tracker → Board ι κ
  | .inl i, t => { b with trackers := Function.update b.trackers i t }
  | .inr k, t => b.putRecord k { b.records k with updates := t }

def onTracker (p : ι ⊕ κ) (op : EStateM Fault Tracker α) : BoardM ι κ α := fun b =>
  match op.run (b.tracker p) with
  | .ok a t => .ok a (b.putTracker p t)
  | .error fault t => .error fault (b.putTracker p t)

def mergeFrom (target source : ι ⊕ κ) (method : Method) : BoardM ι κ Unit := do
  let amount := (← get).value source method
  if amount ≠ 0 then onTracker target (Tracker.add method amount)

/-- Adds every counter of the tracker at `source` to the one at `target`, which may be the same. Each
counter is read when its turn has come. -/
def merge (target source : ι ⊕ κ) : BoardM ι κ Unit := Method.all.forM (mergeFrom target source)

/-! ## Changes at one place -/

/-- The tracker `t` is at one place of `b'`, and everywhere else are those of `b`. -/
def Puts (b b' : Board ι κ) (p : ι ⊕ κ) (t : Tracker) : Prop :=
  ∀ q, b'.tracker q = if q = p then t else b.tracker q

theorem puts_putRecord (b : Board ι κ) (k : κ) (r : Record) :
    b.Puts (b.putRecord k r) (.inr k) r.updates := by
  intro q
  rcases q with i | k' <;>
    simp only [tracker, putRecord, Function.update_apply, Sum.inr.injEq, reduceCtorEq, if_false]
  split <;> rfl

theorem puts_putTracker (b : Board ι κ) (p : ι ⊕ κ) (t : Tracker) :
    b.Puts (b.putTracker p t) p t := by
  cases p with
  | inr k => exact puts_putRecord b k _
  | inl i =>
    intro q
    rcases q with i' | k' <;>
      simp only [putTracker, tracker, Function.update_apply, Sum.inl.injEq, reduceCtorEq, if_false]

namespace Puts

theorem ranged (h : b.Puts b' p t) (hb : b.Ranged) (ht : t.Ranged) : b'.Ranged := by
  intro q
  rw [h q]
  split
  · exact ht
  · exact hb q

theorem value_eq {amount : Int}
    (h : b.Puts b' p ((b.tracker p).put method (b.value p method + amount))) (q : ι ⊕ κ)
    (m : Method) :
    b'.value q m = b.value q m + if q = p ∧ m = method then amount else 0 := by
  rw [value, h q]
  by_cases hq : q = p
  · subst hq
    rw [if_pos rfl, Tracker.value_put]
    by_cases hm : m = method
    · rw [if_pos hm, if_pos ⟨rfl, hm⟩, hm]
    · rw [if_neg hm, if_neg fun h => hm h.2, Int.add_zero]
      rfl
  · rw [if_neg hq, if_neg fun h => hq h.1, Int.add_zero]
    rfl

end Puts

@[simp] theorem putTracker_tracker (b : Board ι κ) (p : ι ⊕ κ) : b.putTracker p (b.tracker p) = b := by
  cases p <;> simp only [putTracker, putRecord, tracker, Function.update_eq_self]

@[simp] theorem putTracker_putTracker (b : Board ι κ) (p : ι ⊕ κ) (t t' : Tracker) :
    (b.putTracker p t).putTracker p t' = b.putTracker p t' := by
  cases p <;> simp only [putTracker, putRecord, Function.update_idem, Function.update_self]

theorem size_putTracker (b : Board ι κ) (p : ι ⊕ κ) (t : Tracker) (k : κ) :
    ((b.putTracker p t).records k).size = (b.records k).size := by
  cases p with
  | inl i => rfl
  | inr k' =>
    by_cases hk : k = k'
    · subst hk
      simp only [putTracker, putRecord, Function.update_self]
    · simp only [putTracker, putRecord, Function.update_of_ne hk]

/-! ## Steps on one tracker -/

theorem run_onTracker (p : ι ⊕ κ) (op : EStateM Fault Tracker α) (b : Board ι κ) :
    (onTracker p op).run b = match op.run (b.tracker p) with
      | .ok a t => .ok a (b.putTracker p t)
      | .error fault t => .error fault (b.putTracker p t) :=
  rfl

theorem run_onTracker_pure (p : ι ⊕ κ) (a : α) (b : Board ι κ) :
    (onTracker p (pure a)).run b = .ok a b := by
  rw [run_onTracker, EStateM.run_pure]
  exact congrArg (EStateM.Result.ok a) (putTracker_tracker b p)

theorem run_onTracker_bind (p : ι ⊕ κ) (op : EStateM Fault Tracker β)
    (f : β → EStateM Fault Tracker α) (b : Board ι κ) :
    (onTracker p (op >>= f)).run b = (onTracker p op >>= fun x => onTracker p (f x)).run b := by
  rw [EStateM.run_bind, run_onTracker, run_onTracker, EStateM.run_bind]
  cases op.run (b.tracker p) with
  | error fault t => rfl
  | ok x t =>
    dsimp only
    rw [run_onTracker, puts_putTracker b p t p, if_pos rfl]
    cases (f x).run t <;> simp only [putTracker_putTracker]

/-- A step that faults before it changed anything does so on the board too. -/
theorem run_onTracker_ite {op : EStateM Fault Tracker Unit} {c : Prop} [Decidable c] {fault : Fault}
    (hop : op.run (b.tracker p) = if c then .ok () t else .error fault (b.tracker p)) :
    (onTracker p op).run b = if c then .ok () (b.putTracker p t) else .error fault b := by
  rw [run_onTracker, hop]
  by_cases hc : c
  · rw [if_pos hc, if_pos hc]
  · rw [if_neg hc, if_neg hc]
    simp only [putTracker_tracker]

theorem run_add (b : Board ι κ) (p : ι ⊕ κ) (method : Method) (amount : Int) :
    (onTracker p (Tracker.add method amount)).run b =
      if InRange (b.value p method + amount) then
        .ok () (b.putTracker p ((b.tracker p).put method (b.value p method + amount)))
      else .error .addOverflow b :=
  run_onTracker_ite (Tracker.run_add _ method amount)

theorem leaves_onTracker {op : EStateM Fault Tracker α} {good : α → Board ι κ → Prop}
    {bad : Fault → Board ι κ → Prop} :
    Leaves (onTracker p op) b good bad ↔
      Leaves op (b.tracker p) (fun a t => good a (b.putTracker p t)) fun e t =>
        bad e (b.putTracker p t) := by
  unfold Leaves
  rw [run_onTracker]
  cases op.run (b.tracker p) <;> rfl

/-! ## Merging -/

theorem run_mergeFrom {other : Tracker} (target source : ι ⊕ κ)
    (hread : b.value source m = other.value m) :
    (mergeFrom target source m).run b = (onTracker target (Tracker.addFrom other m)).run b := by
  show (if b.value source m ≠ 0 then onTracker target (Tracker.add m (b.value source m))
    else pure () : BoardM ι κ Unit).run b = _
  rw [hread, Tracker.addFrom]
  by_cases hzero : other.value m = 0
  · simp only [hzero, ne_eq, not_true_eq_false, if_false]
    exact (run_onTracker_pure target () b).symm
  · simp only [hzero, ne_eq, not_false_eq_true, if_true]

/-- It makes no difference whether the counters are read one by one or all before, also where they are
those that are added to: a counter is not changed before its turn. -/
theorem run_mergeEach {ms : List Method} (hms : ms.Nodup) (hb : b.Ranged) {other : Tracker}
    (target source : ι ⊕ κ) (hread : ∀ m ∈ ms, b.value source m = other.value m) :
    (ms.forM (mergeFrom target source)).run b =
      (onTracker target (ms.forM (Tracker.addFrom other))).run b := by
  induction ms generalizing b with
  | nil => exact (run_onTracker_pure target PUnit.unit b).symm
  | cons m rest ih =>
    obtain ⟨hm, hrest⟩ := List.nodup_cons.1 hms
    have hfirst := run_onTracker_ite (Tracker.run_addFrom (hb target) other m)
    show (mergeFrom target source m >>= fun _ => rest.forM (mergeFrom target source)).run b =
      (onTracker target (Tracker.addFrom other m >>= fun _ => rest.forM _)).run b
    rw [run_onTracker_bind, EStateM.run_bind, EStateM.run_bind,
      run_mergeFrom target source (hread m List.mem_cons_self), hfirst]
    by_cases hsum : InRange ((b.tracker target).value m + other.value m)
    · have hputs := puts_putTracker b target ((b.tracker target).put m (b.value target m + other.value m))
      rw [if_pos hsum]
      refine ih hrest (hputs.ranged hb ((hb target).put hsum)) fun m' hm' => ?_
      have hother : ¬ (source = target ∧ m' = m) := fun h => hm (h.2 ▸ hm')
      have hlater := hputs.value_eq source m'
      rw [if_neg hother, Int.add_zero] at hlater
      exact hlater.trans (hread m' (List.mem_cons_of_mem _ hm'))
    · rw [if_neg hsum]

theorem run_merge (hb : b.Ranged) (target source : ι ⊕ κ) :
    (merge target source).run b = (onTracker target (Tracker.addAll (b.tracker source))).run b := by
  rw [Tracker.addAll_eq]
  exact run_mergeEach (by decide) hb target source fun _ _ => rfl

/-- The tracker at `target` has received what a merge adds to it, or the first part of that. -/
theorem leaves_merge (hb : b.Ranged) (target source : ι ⊕ κ) :
    Leaves (merge target source) b
      (fun _ b' => (∀ m, InRange (b.value target m + b.value source m)) ∧
        ∃ t, b' = b.putTracker target t ∧ t.Ranged ∧
          (b.tracker target).Received (b.tracker source) Method.all t)
      fun fault b' => fault = .addOverflow ∧
        ∃ t, b' = b.putTracker target t ∧ t.Ranged ∧
          (b.tracker target).CutShort (b.tracker source) Method.all t := by
  unfold Leaves
  rw [run_merge hb]
  refine leaves_onTracker.2 ((Tracker.leaves_addEach (by decide) (hb target) _).mono ?_ ?_)
  · rintro _ t ⟨hsums, hreceived, hranged⟩
    exact ⟨fun m => hsums m m.mem_all, t, rfl, hranged, hreceived⟩
  · rintro fault t ⟨hfault, hcut, hranged⟩
    exact ⟨hfault, t, rfl, hranged, hcut⟩

theorem faults_merge_iff (hb : b.Ranged) (target source : ι ⊕ κ) :
    (∃ fault b', (merge target source).run b = .error fault b') ↔
      ∃ m, ¬ InRange (b.value target m + b.value source m) := by
  have hleaves := leaves_merge hb target source
  cases hrun : (merge target source).run b with
  | ok _ b' =>
    have hsums := (hleaves.good_of_run_eq_ok hrun).1
    exact iff_of_false (fun ⟨_, _, h⟩ => nomatch h) fun ⟨m, hm⟩ => hm (hsums m)
  | error fault b' =>
    obtain ⟨-, t, -, -, before, first, later, -, -, hfirst, -⟩ := hleaves.bad_of_run_eq_error hrun
    exact iff_of_true ⟨fault, b', rfl⟩ ⟨first, hfirst⟩

/-- A merge that faults is done up to the first sum that is out of range. -/
theorem of_merge_eq_error {target source : ι ⊕ κ} {fault : Fault} (hb : b.Ranged)
    (hrun : (merge target source).run b = .error fault b') :
    fault = .addOverflow ∧ (∀ k, (b'.records k).size = (b.records k).size) ∧
      ∃ before first later, Method.all = before ++ first :: later ∧
        (∀ m ∈ before, InRange (b.value target m + b.value source m)) ∧
        ¬ InRange (b.value target first + b.value source first) ∧
        ∀ p m, b'.value p m =
          if p = target ∧ m ∈ before then b.value target m + b.value source m
          else b.value p m := by
  obtain ⟨rfl, t, rfl, -, before, first, later, hall, hbefore, hfirst, hreceived⟩ :=
    (leaves_merge hb target source).bad_of_run_eq_error hrun
  refine ⟨rfl, size_putTracker b target t, before, first, later, hall, hbefore, hfirst, ?_⟩
  intro p m
  rw [value, puts_putTracker b target t p]
  by_cases hp : p = target
  · simp only [hp, if_true, true_and]
    exact hreceived m
  · simp only [hp, if_false, false_and]
    rfl

/-! ## Calls -/

inductive Call (ι κ : Type)
  | add (target : ι ⊕ κ) (method : Method) (amount : Int)
  | addAll (target source : ι ⊕ κ)
  | update (record : κ) (method : Method) (size : Nat)

def Call.run : Call ι κ → BoardM ι κ Unit
  | .add target method amount => onTracker target (Tracker.add method amount)
  | .addAll target source => merge target source
  | .update k method size => onRecord k (Record.update method size)

/-- What a call adds to each counter, where the counters are `sums`. -/
def Call.amount (sums : ι ⊕ κ → Method → Int) : Call ι κ → ι ⊕ κ → Method → Int
  | .add target method amount, p, m => if p = target ∧ m = method then amount else 0
  | .addAll target source, p, m => if p = target then sums source m else 0
  | .update k method _, p, m => if p = .inr k ∧ m = method then 1 else 0

/-- A call that ends well adds its amounts, and every call leaves the counters in their range. -/
theorem Call.leaves_run (hb : b.Ranged) (call : Call ι κ) :
    Leaves call.run b
      (fun _ b' => b'.Ranged ∧ ∀ p m, b'.value p m = b.value p m + call.amount b.value p m)
      fun _ b' => b'.Ranged := by
  cases call with
  | add target method amount =>
    by_cases hsum : InRange (b.value target method + amount)
    · have hputs := puts_putTracker b target ((b.tracker target).put method (b.value target method + amount))
      exact leaves_of_run_eq_ok ((run_add b target method amount).trans (if_pos hsum))
        ⟨hputs.ranged hb ((hb target).put hsum), hputs.value_eq⟩
    · exact leaves_of_run_eq_error ((run_add b target method amount).trans (if_neg hsum)) hb
  | addAll target source =>
    refine (leaves_merge hb target source).mono ?_ ?_
    · rintro _ _ ⟨-, t, rfl, hranged, hreceived⟩
      have hputs := puts_putTracker b target t
      refine ⟨hputs.ranged hb hranged, fun p m => ?_⟩
      rw [value, hputs p, amount]
      split
      · rename_i hp
        rw [hreceived m, if_pos m.mem_all, hp]
        rfl
      · exact (Int.add_zero _).symm
    · rintro _ _ ⟨-, t, rfl, hranged, -⟩
      exact (puts_putTracker b target t).ranged hb hranged
  | update k method size =>
    by_cases hsum : InRange (b.value (.inr k) method + 1)
    · have hputs := puts_putRecord b k { b.records k with
        size
        updates := (b.records k).updates.put method (b.value (.inr k) method + 1) }
      exact leaves_of_run_eq_ok ((run_update b k method size).trans (if_pos hsum))
        ⟨hputs.ranged hb ((hb (.inr k)).put hsum), hputs.value_eq⟩
    · exact leaves_of_run_eq_error ((run_update b k method size).trans (if_neg hsum)) hb

/-! ## All calls -/

/-- The board after a call, also if it faults. -/
def step (b : Board ι κ) (call : Call ι κ) : Board ι κ :=
  match call.run.run b with
  | .ok _ b' | .error _ b' => b'

/-- The board after all calls in their order, whichever of them fault. -/
def after (b : Board ι κ) (calls : List (Call ι κ)) : Board ι κ := calls.foldl step b

def addAmounts (sums : ι ⊕ κ → Method → Int) (call : Call ι κ) : ι ⊕ κ → Method → Int := fun p m =>
  sums p m + call.amount sums p m

/-- The exact sums of all that the calls add to each counter. -/
def exactSums (calls : List (Call ι κ)) : ι ⊕ κ → Method → Int := calls.foldl addAmounts fun _ _ => 0

theorem ranged_after (hb : b.Ranged) (calls : List (Call ι κ)) : (b.after calls).Ranged := by
  induction calls generalizing b with
  | nil => exact hb
  | cons call rest ih =>
    refine ih ?_
    have hleaves := call.leaves_run hb
    unfold Leaves at hleaves
    unfold step
    cases hrun : call.run.run b with
    | ok _ b' =>
      rw [hrun] at hleaves
      exact hleaves.1
    | error fault b' =>
      rw [hrun] at hleaves
      exact hleaves

/-- Where no call faults, nothing is lost. -/
theorem value_of_run_eq_ok {b' : Board ι κ} {calls : List (Call ι κ)} (hb : b.Ranged)
    (hrun : (calls.forM Call.run).run b = .ok () b') :
    b' = b.after calls ∧ b'.value = calls.foldl addAmounts b.value := by
  induction calls generalizing b with
  | nil =>
    cases hrun
    exact ⟨rfl, rfl⟩
  | cons call rest ih =>
    obtain ⟨⟨⟩, mid, hcall, hrest⟩ := run_bind_eq_ok_iff.1 hrun
    obtain ⟨hmid, hvalue⟩ := (call.leaves_run hb).good_of_run_eq_ok hcall
    have hstep : b.step call = mid := by rw [step, hcall]
    have hsums : mid.value = addAmounts b.value call := funext fun p => funext (hvalue p)
    rw [after, List.foldl_cons, List.foldl_cons, hstep, ← hsums]
    exact ih hmid hrest

/-- **The counters are exact sums as long as no call faults, and a call that faults leaves what is
said.** That is so after every list of calls on new trackers and records, also where some of these
faulted. A tracker that is added to another, or to itself, faults exactly if a sum is out of range. Then
just the methods in front of the first such one have received their sums. An update of a full counter
leaves the record as it was. -/
theorem counters_are_exact (made : κ → Method) (sizes : κ → Nat) (calls : List (Call ι κ)) :
    let b := (start made sizes : Board ι κ).after calls
    (∀ b', (calls.forM Call.run).run (start made sizes) = .ok () b' →
      b' = b ∧ ∀ p m, b.value p m = exactSums calls p m) ∧
    (∀ (call : Call ι κ) b', call.run.run b = .ok () b' →
      ∀ p m, b'.value p m = b.value p m + call.amount b.value p m) ∧
    (∀ target source, let sum := fun m => b.value target m + b.value source m
      (merge target source).run b = (onTracker target (Tracker.addAll (b.tracker source))).run b ∧
      ((∃ fault b', (merge target source).run b = .error fault b') ↔ ∃ m, ¬ InRange (sum m)) ∧
      ∀ fault b', (merge target source).run b = .error fault b' → fault = .addOverflow ∧
        (∀ k, (b'.records k).size = (b.records k).size) ∧
        ∃ before first later, Method.all = before ++ first :: later ∧
          (∀ m ∈ before, InRange (sum m)) ∧ ¬ InRange (sum first) ∧
          ∀ p m, b'.value p m = if p = target ∧ m ∈ before then sum m else b.value p m) ∧
    (∀ target method amount, let add := onTracker target (Tracker.add method amount)
      (InRange (b.value target method + amount) → ∃ b', add.run b = .ok () b') ∧
      (¬ InRange (b.value target method + amount) → add.run b = .error .addOverflow b)) ∧
    ∀ k method size, let update := onRecord k (Record.update method size)
      (b.value (.inr k) method ≠ countBound - 1 →
        ∃ b', update.run b = .ok () b' ∧ (b'.records k).size = size) ∧
      (b.value (.inr k) method = countBound - 1 → update.run b = .error .addOverflow b) := by
  intro b
  have hstart : (start made sizes : Board ι κ).Ranged := ranged_start made sizes
  have hb : b.Ranged := ranged_after hstart calls
  refine ⟨?_, ?_, ?_, ?_, ?_⟩
  · intro b' hrun
    obtain ⟨rfl, hvalue⟩ := value_of_run_eq_ok hstart hrun
    rw [value_start] at hvalue
    exact ⟨rfl, fun p m => congrFun (congrFun hvalue p) m⟩
  · intro call b' hrun
    exact ((call.leaves_run hb).good_of_run_eq_ok hrun).2
  · intro target source
    exact ⟨run_merge hb target source, faults_merge_iff hb target source,
      fun fault b' hrun => of_merge_eq_error hb hrun⟩
  · intro target method amount
    exact ⟨fun hsum => ⟨_, (run_add b target method amount).trans (if_pos hsum)⟩,
      fun hsum => (run_add b target method amount).trans (if_neg hsum)⟩
  · intro k method size
    have hfull := not_inRange_succ_iff (hb (.inr k) method)
    refine ⟨fun hne => ⟨_, (run_update b k method size).trans (if_pos ?_), ?_⟩, fun heq => ?_⟩
    · exact Decidable.of_not_not fun hout => hne (hfull.1 hout)
    · simp only [putRecord, Function.update_self]
    · exact (run_update b k method size).trans (if_neg (hfull.2 heq))

/-- A tracker that is added to itself until one of its counters would leave the range. -/
example :
    let calls : List (Call Unit Empty) := [.add (.inl ()) .unknown 1,
      .add (.inl ()) .appendBytes 4611686018427387904, .add (.inl ()) .clear 1,
      .addAll (.inl ()) (.inl ())]
    let b := (start Empty.elim Empty.elim).after calls
    [Method.unknown, .appendBytes, .clear].map (b.value (.inl ())) = [2, 4611686018427387904, 1] := by
  decide

end Board
end RopeStore.Sampling
