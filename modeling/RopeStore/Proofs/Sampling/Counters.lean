import Mathlib.Data.List.Basic
import Mathlib.Logic.Function.Defs
import RopeStore.Proofs.Outcome
import RopeStore.Sampling.Record

/-!
# Adding to counters

An addition that leaves the range of a counter is a fault. All counters of a tracker are added one after
the other, so that fault may leave half of the work done.

* `InRange` : what a counter can hold; `Tracker.Ranged` : so do all counters;
* `Tracker.run_add`, `Record.run_update` : one addition. A fault leaves everything as it was;
* `Tracker.addFrom`, `Tracker.leaves_addEach` : the additions of some methods in their order. The ones in
  front of the first sum out of range are done, and no other.
-/

namespace RopeStore.Sampling

/-! ## Counters -/

def InRange (n : Int) : Prop := -countBound ≤ n ∧ n < countBound

instance : DecidablePred InRange := fun _ => inferInstanceAs (Decidable (_ ∧ _))

/-- What is full cannot take one more, and nothing else. -/
theorem not_inRange_succ_iff {n : Int} (hn : InRange n) : ¬ InRange (n + 1) ↔ n = countBound - 1 := by
  unfold InRange countBound at *
  omega

theorem addCounts_eq (a b : Int) :
    addCounts a b = if InRange (a + b) then .ok (a + b) else .error .addOverflow := rfl

theorem Method.mem_all (method : Method) : method ∈ all := by cases method <;> decide

theorem Method.index_injective : Function.Injective index := by
  have hback : ∀ method : Method, all[method.index]? = some method := by
    intro method
    cases method <;> rfl
  intro method method' h
  exact Option.some.inj ((hback method).symm.trans (h ▸ hback method'))

theorem Method.index_lt (method : Method) : method.index.val < 11 := method.index.isLt

namespace Tracker
variable {t other : Tracker} {method m : Method} {amount count : Int} {ms : List Method}

def put (t : Tracker) (method : Method) (count : Int) : Tracker :=
  ⟨t.counts.set method.index count method.index_lt⟩

theorem value_put : (t.put method count).value m = if m = method then count else t.value m := by
  show (t.counts.set method.index count)[m.index] = _
  rw [Fin.getElem_fin, Vector.getElem_set]
  by_cases hm : m = method
  · rw [if_pos hm, if_pos (by rw [hm])]
  · rw [if_neg hm, if_neg fun h => hm (Method.index_injective (Fin.ext h)).symm]
    rfl

@[simp] theorem put_value (t : Tracker) (method : Method) : t.put method (t.value method) = t := by
  show (⟨t.counts.set method.index (t.counts[method.index])⟩ : Tracker) = t
  simp only [Fin.getElem_fin, Vector.set_getElem_self]

def Ranged (t : Tracker) : Prop := ∀ m, InRange (t.value m)

theorem value_zero (m : Method) : zero.value m = 0 := by cases m <;> rfl

theorem ranged_zero : zero.Ranged := by
  intro m
  rw [value_zero]
  decide

theorem Ranged.put (ht : t.Ranged) (hcount : InRange count) : (t.put method count).Ranged := by
  intro m
  rw [value_put]
  split
  · exact hcount
  · exact ht m

theorem run_add (t : Tracker) (method : Method) (amount : Int) :
    (add method amount).run t =
      if InRange (t.value method + amount) then .ok ⟨⟩ (t.put method (t.value method + amount))
      else .error .addOverflow t := by
  show (ofExcept (addCounts (t.value method) amount) >>= _ : EStateM Fault Tracker Unit).run t = _
  rw [addCounts_eq]
  split <;> rfl

def addFrom (other : Tracker) (method : Method) : EStateM Fault Tracker Unit := do
  let amount := other.value method
  if amount ≠ 0 then add method amount

theorem addAll_eq (other : Tracker) : addAll other = Method.all.forM (addFrom other) := rfl

/-- Zeros are passed over, which cannot be told from adding them. -/
theorem run_addFrom (ht : t.Ranged) (other : Tracker) (method : Method) :
    (addFrom other method).run t =
      if InRange (t.value method + other.value method) then
        .ok ⟨⟩ (t.put method (t.value method + other.value method))
      else .error .addOverflow t := by
  rw [addFrom]
  by_cases hzero : other.value method = 0
  · simp only [hzero, ne_eq, not_true_eq_false, if_false, Int.add_zero, if_pos (ht method), put_value]
    rfl
  · simp only [hzero, ne_eq, not_false_eq_true, if_true, run_add]

/-- The counters of `t` for the methods in `ms` have received their sums, and no others. -/
def Received (t other : Tracker) (ms : List Method) (t' : Tracker) : Prop :=
  ∀ m, t'.value m = if m ∈ ms then t.value m + other.value m else t.value m

/-- A sum is out of range, and just the counters in front of it have received theirs. -/
def CutShort (t other : Tracker) (ms : List Method) (t' : Tracker) : Prop :=
  ∃ before first later, ms = before ++ first :: later ∧
    (∀ m ∈ before, InRange (t.value m + other.value m)) ∧
    ¬ InRange (t.value first + other.value first) ∧ t.Received other before t'

/-- The first counter has received its sum, and now the others follow. -/
theorem Received.cons {t' : Tracker} (hm : m ∉ ms)
    (h : (t.put m (t.value m + other.value m)).Received other ms t') :
    t.Received other (m :: ms) t' := by
  intro m'
  rw [h m', value_put]
  by_cases heq : m' = m
  · subst heq
    rw [if_neg hm, if_pos rfl, if_pos List.mem_cons_self]
  · rw [if_neg heq]
    simp only [List.mem_cons, heq, false_or]

theorem leaves_addEach (hms : ms.Nodup) (ht : t.Ranged) (other : Tracker) :
    Leaves (ms.forM (addFrom other)) t
      (fun _ t' => (∀ m ∈ ms, InRange (t.value m + other.value m)) ∧ t.Received other ms t' ∧
        t'.Ranged)
      fun fault t' => fault = .addOverflow ∧ t.CutShort other ms t' ∧ t'.Ranged := by
  induction ms generalizing t with
  | nil => exact ⟨by simp, fun _ => rfl, ht⟩
  | cons m rest ih =>
    obtain ⟨hm, hrest⟩ := List.nodup_cons.1 hms
    show Leaves (addFrom other m >>= fun _ => rest.forM (addFrom other)) t _ _
    by_cases hsum : InRange (t.value m + other.value m)
    · have hrun := run_addFrom ht other m
      rw [if_pos hsum] at hrun
      -- The counters that come later are those of `t` still.
      have hlater : ∀ m' ∈ rest,
          (t.put m (t.value m + other.value m)).value m' = t.value m' := by
        intro m' hm'
        rw [value_put, if_neg]
        rintro rfl
        exact hm hm'
      refine (leaves_bind_of_run_eq_ok hrun).2 ((ih hrest (ht.put hsum)).mono ?_ ?_)
      · rintro _ t' ⟨hsums, hreceived, hranged⟩
        refine ⟨fun m' hm' => ?_, hreceived.cons hm, hranged⟩
        rcases List.mem_cons.1 hm' with rfl | hm'
        · exact hsum
        · rw [← hlater m' hm']
          exact hsums m' hm'
      · rintro fault t' ⟨rfl, ⟨before, first, later, rfl, hbefore, hfirst, hreceived⟩, hranged⟩
        rw [hlater first (by simp)] at hfirst
        refine ⟨rfl, ⟨m :: before, first, later, rfl, fun m' hm' => ?_, hfirst,
          hreceived.cons fun hmem => hm (List.mem_append_left _ hmem)⟩, hranged⟩
        rcases List.mem_cons.1 hm' with rfl | hm'
        · exact hsum
        · rw [← hlater m' (List.mem_append_left _ hm')]
          exact hbefore m' hm'
    · have hrun := run_addFrom ht other m
      rw [if_neg hsum] at hrun
      refine leaves_of_run_eq_error (run_bind_of_run_eq_error hrun) ⟨rfl, ?_, ht⟩
      exact ⟨[], m, rest, rfl, by simp, hsum, fun _ => rfl⟩

end Tracker

theorem Record.run_onUpdates {α : Type} (op : EStateM Fault Tracker α) (r : Record) :
    (onUpdates op).run r = match op.run r.updates with
      | .ok a updates => .ok a { r with updates }
      | .error fault updates => .error fault { r with updates } :=
  rfl

/-- The counter comes before the size, so a fault leaves both. -/
theorem Record.run_update (r : Record) (method : Method) (size : Nat) :
    (update method size).run r =
      if InRange (r.updates.value method + 1) then
        .ok () { r with
          size
          updates := r.updates.put method (r.updates.value method + 1) }
      else .error .addOverflow r := by
  rw [update, EStateM.run_bind, run_onUpdates, Tracker.run_add]
  by_cases hsum : InRange (r.updates.value method + 1)
  · rw [if_pos hsum, if_pos hsum]
    rfl
  · rw [if_neg hsum, if_neg hsum]

end RopeStore.Sampling
