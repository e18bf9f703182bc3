import Mathlib.Data.List.Basic
import Mathlib.Data.List.Forall2
import RopeStore.Drill.Count
import RopeStore.Proofs.Count
import RopeStore.Proofs.Outcome

/-!
# Immortal counts

Whether a count is immortal is settled when it is made.

* `RefCount.preserves_increment`, `preserves_decrement`, `preserves_decrementExpectHigh` : no operation
  touches the mark of an immortal count, also where it faults or the word wraps;
* `Drill.Count.Action.answer` : what is answered where a count is immortal;
* `Drill.Count.forall₂_notes_of_isImmortal` : so it is in every drill, and nothing faults;
* `Drill.Count.isImmortal_of_mem_notes` : in every drill, all counts have the mark of the first.
-/

namespace RopeStore

namespace RefCount
variable (mark : Bool)

/-! ## The mark -/

theorem preserves_load : Preserves (fun c => c.isImmortal = mark) load :=
  preserves_get.bind fun _ => preserves_pure _

theorem preserves_fetchAdd : Preserves (fun c => c.isImmortal = mark) fetchAdd :=
  fun c hc => (isImmortal_add_unit c).trans hc

theorem preserves_fetchSub : Preserves (fun c => c.isImmortal = mark) fetchSub :=
  fun c hc => (isImmortal_sub_unit c).trans hc

theorem preserves_increment : Preserves (fun c => c.isImmortal = mark) increment :=
  (preserves_fetchAdd mark).bind fun _ => preserves_pure _

theorem preserves_decrement : Preserves (fun c => c.isImmortal = mark) decrement := by
  refine (preserves_load mark).bind fun seen => (preserves_ofExcept _).bind fun _ => ?_
  split
  · exact preserves_pure _
  · exact (preserves_fetchSub mark).bind fun _ => preserves_pure _

theorem preserves_decrementExpectHigh :
    Preserves (fun c => c.isImmortal = mark) decrementExpectHigh :=
  (preserves_fetchSub mark).bind fun _ => (preserves_ofExcept _).bind fun _ => preserves_pure _

end RefCount

namespace Drill.Count
open RefCount
variable {c : RefCount}

/-! ## Drills -/

theorem preserves_perform (mark : Bool) (a : Action) :
    Preserves (fun c : RefCount => c.isImmortal = mark) a.perform := by
  cases a with
  | increment => exact (preserves_increment mark).bind fun _ => preserves_pure _
  | decrement => exact (preserves_decrement mark).bind fun _ => preserves_pure _
  | decrementExpectHigh => exact (preserves_decrementExpectHigh mark).bind fun _ => preserves_pure _
  | pretty => exact preserves_get.bind fun _ => preserves_pure _

/-- What an action answers that leaves an immortal count. -/
def Action.answer (after : RefCount) : Action → Answer
  | .increment => .nothing
  | .decrement | .decrementExpectHigh => .flag true
  | .pretty => .text after.pretty

theorem run_perform_of_isImmortal (hc : c.isImmortal = true) (a : Action) :
    ∃ after, a.perform.run c = .ok (a.answer after) after ∧ after.isImmortal = true := by
  have hkeeps := preserves_perform true a c hc
  have hends : ∃ after, a.perform.run c = .ok (a.answer after) after := by
    cases a with
    | increment => exact ⟨_, rfl⟩
    | decrement => exact ⟨_, run_bind_of_run_eq_ok (run_decrement_of_isImmortal hc)⟩
    | decrementExpectHigh => exact ⟨_, run_bind_of_run_eq_ok (run_decrementExpectHigh_of_isImmortal hc)⟩
    | pretty => exact ⟨c, rfl⟩
  obtain ⟨after, hrun⟩ := hends
  exact ⟨after, hrun, hkeeps.good_of_run_eq_ok hrun⟩

/-- Nothing that is done to an immortal count faults, and it never gives up its last reference. -/
theorem forall₂_notes_of_isImmortal (hc : c.isImmortal = true) (actions : List Action) :
    List.Forall₂ (fun a note => note.outcome = .ok (a.answer note.count)) actions
      (notes c actions) := by
  induction actions generalizing c with
  | nil => exact .nil
  | cons a rest ih =>
    obtain ⟨after, hrun, hafter⟩ := run_perform_of_isImmortal hc a
    rw [notes, hrun]
    exact .cons rfl (ih hafter)

theorem isImmortal_of_mem_notes {mark : Bool} (hc : c.isImmortal = mark) (actions : List Action) :
    ∀ note ∈ notes c actions, note.count.isImmortal = mark := by
  induction actions generalizing c with
  | nil => exact nofun
  | cons a rest ih =>
    have hkeeps := preserves_perform mark a c hc
    unfold Leaves at hkeeps
    rw [notes]
    cases hrun : a.perform.run c with
    | ok answer after =>
      rw [hrun] at hkeeps
      exact List.forall_mem_cons.2 ⟨hkeeps, ih hkeeps⟩
    | error fault after =>
      rw [hrun] at hkeeps
      exact List.forall_mem_cons.2 ⟨hkeeps, ih hkeeps⟩

theorem isImmortal_of_mem_run {mark : Bool} (hc : c.isImmortal = mark) (actions : List Action) :
    ∀ note ∈ run c actions, note.count.isImmortal = mark :=
  List.forall_mem_cons.2 ⟨hc, isImmortal_of_mem_notes hc actions⟩

end Drill.Count
end RopeStore
