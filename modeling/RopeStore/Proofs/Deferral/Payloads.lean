import Mathlib.Data.List.Basic
import RopeStore.Proofs.Deferral.Timeline

/-!
# The payloads in the cells

* `Known q e` : the queue `q` gave out the identity `e`;
* `Holds q h payload` : the handle `h` is there and owns `payload`;
* `Holds.push`, `Holds.erase` : what a cell that comes or goes means for the other payloads;
* `run_takePayload`, `run_destroy_of_stands` : a cell that goes, with its payload or without.
-/

namespace RopeStore.Deferral
variable {α : Type} {q q' : Queue α} {e h : EntryId} {payload : α}

/-! ## Identities -/

/-- The identity `e` was given out by the queue. -/
def Known (q : Queue α) (e : EntryId) : Prop := e.queue = q.number ∧ e.serial < q.cells.size

theorem Stands.known (hs : Stands q e) : Known q e := ⟨hs.1, serial_lt_of_stands hs⟩

theorem not_known_next (q : Queue α) (kind : Bool) : ¬ Known q ⟨q.number, q.cells.size, kind⟩ :=
  fun hk => Nat.lt_irrefl _ hk.2

theorem SameCells.known (hs : SameCells q q') : Known q' e ↔ Known q e := by
  unfold Known
  rw [hs.number, hs.size]

theorem Known.push (hk : Known q e) (cell : Cell α) :
    Known { q with cells := q.cells.push cell } e :=
  ⟨hk.1, by rw [Arena.size_push]; exact Nat.lt_succ_of_lt hk.2⟩

theorem Known.erase (hk : Known q e) (serial : Nat) :
    Known { q with cells := q.cells.erase serial } e :=
  ⟨hk.1, by rw [Arena.size_erase]; exact hk.2⟩

/-! ## Payloads -/

def Holds (q : Queue α) (h : EntryId) (payload : α) : Prop :=
  h.queue = q.number ∧ h.isSnapshot = false ∧
    (q.cell? h.serial).map (·.content) = some (.handle payload)

theorem Holds.stands (hh : Holds q h payload) : Stands q h := by
  obtain ⟨hqueue, hkind, hcell⟩ := hh
  obtain ⟨c, hc, hcontent⟩ := Option.map_eq_some_iff.1 hcell
  exact ⟨hqueue, c, hc, by rw [hcontent, hkind]; rfl⟩

theorem Holds.unique {payload' : α} (hh : Holds q h payload) (hh' : Holds q h payload') :
    payload = payload' := by
  have heq := hh.2.2.symm.trans hh'.2.2
  simpa using heq

theorem exists_holds (hs : Stands q h) (hhandle : isHandle h = true) :
    ∃ payload, Holds q h payload := by
  obtain ⟨hqueue, c, hc, hkind⟩ := hs
  rw [isHandle_iff] at hhandle
  rw [hhandle] at hkind
  cases hcontent : c.content with
  | snapshot => simp [hcontent, Content.isSnapshot] at hkind
  | handle payload => exact ⟨payload, hqueue, hhandle, by rw [hc, Option.map_some, hcontent]⟩

theorem SameCells.holds (hs : SameCells q q') : Holds q' h payload ↔ Holds q h payload := by
  unfold Holds
  rw [hs.number, hs.content]

theorem Holds.push (hh : Holds q h payload) (cell : Cell α) :
    Holds { q with cells := q.cells.push cell } h payload := by
  have hne := Nat.ne_of_lt (serial_lt_of_stands hh.stands)
  unfold Holds
  rw [cell?_create_of_ne q cell hne]
  exact hh

theorem Holds.erase (hh : Holds q h payload) (hs : Stands q e) (hne : h ≠ e) :
    Holds { q with cells := q.cells.erase e.serial } h payload := by
  have hserial : h.serial ≠ e.serial := fun heq => hne (hh.stands.eq_of_serial hs heq)
  unfold Holds
  rw [cell?_erase_of_ne q hserial]
  exact hh

namespace Queue

theorem run_destroy_of_stands (hs : Stands q e) :
    ∃ content, (destroy e.serial).run q =
      .ok content { q with cells := q.cells.erase e.serial } := by
  obtain ⟨-, c, hc, -⟩ := hs
  exact ⟨c.content, run_destroy hc⟩

theorem run_takePayload (hh : Holds q h payload) :
    (takePayload h).run q = .ok payload { q with cells := q.cells.erase h.serial } := by
  obtain ⟨-, -, hcell⟩ := hh
  obtain ⟨c, hc, hcontent⟩ := Option.map_eq_some_iff.1 hcell
  rw [takePayload, run_bind_of_run_eq_ok (run_destroy hc), hcontent]
  rfl

end Queue
end RopeStore.Deferral
