import Mathlib.Data.List.Basic
import RopeStore.Proofs.Deferral.Payloads

/-!
# What a snapshot may look at

* `Queue.payload? q e` : the payload of a handle that is there;
* `run_safeHandles`, `run_inspectDeleted` : a snapshot sees the handles behind it in the chain, and
  their payloads;
* `run_isSafeToInspect`, `run_isSafeToInspect_of_not_mem` : a handle of the chain is safe exactly for
  the snapshots before it, and what is not in the chain is safe;
* `run_readStats` : the counters are those of the queue.
-/

namespace RopeStore.Deferral
variable {α β : Type} {q : Queue α} {as xs ys : List EntryId} {e h s : EntryId}

namespace Queue

def payload? (q : Queue α) (e : EntryId) : Option α :=
  match q.cell? e.serial with
  | some ⟨.handle payload, _, _⟩ => some payload
  | _ => none

theorem payload?_of_holds {payload : α} (hh : Holds q e payload) : q.payload? e = some payload := by
  obtain ⟨-, -, hcell⟩ := hh
  obtain ⟨⟨content, older, newer⟩, hc, rfl⟩ := Option.map_eq_some_iff.1 hcell
  rw [payload?, hc]

theorem run_readStats (hfree : q.lock.held = false) :
    (readStats : QueueM α Stats).run q = .ok q.stats q := by
  have hrun : (do return (← get).stats : QueueM α Stats).run q.taken = .ok q.stats q.taken := rfl
  rw [readStats, run_locked_of_ok hfree hrun rfl, taken_freed hfree]

/-! ## The handles behind a snapshot -/

theorem mapM_entry_eq_ok {es : List EntryId} (hes : ∀ e ∈ es, Stands q e) :
    ∃ found : List (EntryId × Cell α), ((es.map (·.serial)).mapM fun serial =>
        return (← q.idOf serial, ← q.cell serial) : Except Fault _) = .ok found ∧
      found.map (·.1) = es ∧ ∀ p ∈ found, q.cell? p.1.serial = some p.2 := by
  induction es with
  | nil => exact ⟨[], rfl, rfl, by simp⟩
  | cons e rest ih =>
    obtain ⟨found, hfound, hids, hcells⟩ := ih fun e' he' => hes e' (List.mem_cons_of_mem _ he')
    have hstands := hes e List.mem_cons_self
    have ⟨_, c, hc, _⟩ := hstands
    refine ⟨(e, c) :: found, ?_, by rw [List.map_cons, hids], ?_⟩
    · rw [List.map_cons, List.mapM_cons, idOf_eq_ok hstands, cell_eq_ok hc, hfound]
      rfl
    · intro p hp
      rcases List.mem_cons.1 hp with rfl | hp
      · exact hc
      · exact hcells p hp

theorem deletedAfter_eq_ok (hch : Chain q (as ++ s :: ys)) :
    ∃ found, q.deletedAfter s = .ok found ∧ found.map (·.1) = ys.filter isHandle ∧
      ∀ p ∈ found, q.cell? p.1.serial = some p.2 := by
  obtain ⟨-, ⟨content, hcell, -⟩, hys⟩ := Linked.append_iff.1 hch.linked
  have hlen := length_le_of_chain hch
  rw [List.length_append, List.length_cons] at hlen
  have hwalk := newerWalkWithin_eq_ok hys (show ys.length ≤ q.cells.size by omega)
  have hes : ∀ e ∈ ys, Stands q e := fun e he => by
    have hmem : e ∈ as ++ s :: ys := List.mem_append_right _ (List.mem_cons_of_mem _ he)
    exact ⟨hch.own e hmem, hch.linked.cell_of_mem hmem⟩
  obtain ⟨found, hfound, hids, hcells⟩ := mapM_entry_eq_ok hes
  refine ⟨found.filter fun p => !p.1.isSnapshot, ?_, ?_, fun p hp => hcells p (List.mem_filter.1 hp).1⟩
  · rw [deletedAfter, cell_eq_ok hcell]
    show (do
      let behind ← (← q.newerWalkWithin q.cells.size (firstOr ys none)).mapM fun serial =>
        return (← q.idOf serial, ← q.cell serial)
      pure (behind.filter fun entry => !entry.1.isSnapshot) : Except Fault _) = _
    rw [hwalk]
    show (do
      let behind ← (ys.map (·.serial)).mapM fun serial => return (← q.idOf serial, ← q.cell serial)
      pure (behind.filter fun entry => !entry.1.isSnapshot) : Except Fault _) = _
    rw [hfound]
    rfl
  · rw [← hids, List.filter_map]
    rfl

theorem run_locked_ask {γ : Type} (read : Queue α → Except Fault γ) {c : γ}
    (hfree : q.lock.held = false) (hread : read q.taken = .ok c) (f : γ → β) :
    (locked (do return f (← ask read))).run q = .ok (f c) q := by
  have hrun : (do return f (← ask read) : QueueM α β).run q.taken = .ok (f c) q.taken := by
    rw [run_bind_of_run_eq_ok (run_ask_of_eq_ok hread)]
    rfl
  rw [run_locked_of_ok hfree hrun rfl, taken_freed hfree]

/-- **A snapshot may look at the deleted handles behind it in the chain.** -/
theorem run_safeHandles (ho : Orderly q (as ++ s :: ys)) :
    (safeHandles s).run q = .ok (ys.filter isHandle) q := by
  obtain ⟨found, hfound, hids, -⟩ := deletedAfter_eq_ok (chain_taken ho.chain)
  have hrun := run_locked_ask (·.deletedAfter s) ho.free hfound fun found => found.map (·.1)
  rwa [hids] at hrun

/-- **And it sees their payloads.** -/
theorem run_inspectDeleted (ho : Orderly q (as ++ s :: ys)) (select : α → Option β) :
    (inspectDeleted s select).run q =
      .ok ((ys.filter isHandle).filterMap fun e => (q.payload? e).bind select) q := by
  obtain ⟨found, hfound, hids, hcells⟩ := deletedAfter_eq_ok (chain_taken ho.chain)
  refine (run_locked_ask (·.deletedAfter s) ho.free hfound _).trans ?_
  rw [← hids, List.filterMap_map]
  congr 1
  apply List.filterMap_congr
  intro p hp
  have hcell : q.cell? p.1.serial = some p.2 := hcells p hp
  rw [Function.comp_apply, payload?, hcell]
  obtain ⟨e, ⟨content, older, newer⟩⟩ := p
  cases content <;> rfl

/-! ## The verdict on a handle -/

theorem not_before_head (hnodup : (h :: xs).Nodup) : ¬ [s, h].Sublist (h :: xs) := by
  intro hsub
  rcases List.sublist_cons_iff.1 hsub with hsub | ⟨r, hr, hrest⟩
  · exact (List.nodup_cons.1 hnodup).1 (hsub.subset (List.mem_cons_of_mem _ List.mem_cons_self))
  · cases hr
    exact (List.nodup_cons.1 hnodup).1 (hrest.subset List.mem_cons_self)

/-- A handle that is met is safe unless the snapshot was met before it. -/
theorem judge_eq_ok {l : List EntryId} (hnodup : l.Nodup) (hh : h ∈ l) (found : Bool) :
    ∃ safe, judge s h found l = .ok safe ∧
      (safe = true ↔ found = false ∧ ¬ [s, h].Sublist l) := by
  induction l generalizing found with
  | nil => cases hh
  | cons e rest ih =>
    unfold judge
    by_cases heq : e = h
    · subst heq
      refine ⟨!found, if_pos rfl, ?_⟩
      rw [Bool.not_eq_true', and_iff_left (not_before_head hnodup)]
    · have hrest := (List.mem_cons.1 hh).resolve_left (Ne.symm heq)
      rw [if_neg heq]
      obtain ⟨safe, hjudge, hsafe⟩ := ih (List.nodup_cons.1 hnodup).2 hrest
        (found || decide (e = s))
      refine ⟨safe, hjudge, hsafe.trans ?_⟩
      by_cases hes : e = s
      · subst hes
        have hbefore : [e, h].Sublist (e :: rest) := (List.singleton_sublist.2 hrest).cons_cons e
        simp [hbefore]
      · have hskip : [s, h].Sublist (e :: rest) ↔ [s, h].Sublist rest := by
          rw [List.sublist_cons_iff]
          apply or_iff_left
          rintro ⟨r, hr, -⟩
          cases hr
          exact hes rfl
        simp [hes, hskip]

/-- An entry that is not met is safe, once the snapshot was met. -/
theorem judge_of_not_mem {l : List EntryId} (hh : h ∉ l) {found : Bool}
    (hs : found = true ∨ s ∈ l) : judge s h found l = .ok true := by
  induction l generalizing found with
  | nil => simp [judge, hs.resolve_right List.not_mem_nil]
  | cons e rest ih =>
    obtain ⟨hne, hrest⟩ := not_or.1 (List.mem_cons.not.1 hh)
    rw [judge, if_neg (Ne.symm hne)]
    apply ih hrest
    rcases hs with rfl | hs
    · simp
    · rcases List.mem_cons.1 hs with rfl | hs
      · simp
      · exact .inr hs

theorem run_isSafeToInspect_eq {safe : Bool} (ho : Orderly q xs) (hhandle : h.isSnapshot = false)
    (hjudge : judge s h false xs.reverse = .ok safe) :
    (isSafeToInspect s (some h)).run q = .ok safe q := by
  have hrun : (do
      let chain ← (← ask fun q => q.olderWalk q.newest).mapM fun serial => ask (·.idOf serial)
      ofExcept (judge s h false chain) : QueueM α Bool).run q.taken = .ok safe q.taken := by
    rw [← bind_assoc, run_bind_of_run_eq_ok (run_listed ho)]
    exact run_ofExcept_of_eq_ok hjudge
  rw [isSafeToInspect, if_neg (by rw [hhandle]; exact Bool.false_ne_true),
    run_locked_of_ok ho.free hrun rfl, taken_freed ho.free]

/-- **A deleted handle of the chain is safe exactly for the snapshots that come before it.** -/
theorem run_isSafeToInspect (ho : Orderly q xs) (hs : s ∈ xs) (hh : h ∈ xs)
    (hsnap : s.isSnapshot = true) (hhandle : h.isSnapshot = false) :
    ∃ safe, (isSafeToInspect s (some h)).run q = .ok safe q ∧
      (safe = true ↔ [s, h].Sublist xs) := by
  have hne : s ≠ h := (ne_of_isHandle (isHandle_iff.2 hhandle) hsnap).symm
  obtain ⟨safe, hjudge, hsafe⟩ := judge_eq_ok (s := s) (List.nodup_reverse.2 ho.nodup)
    (List.mem_reverse.2 hh) false
  refine ⟨safe, run_isSafeToInspect_eq ho hhandle hjudge, ?_⟩
  rw [hsafe, and_iff_right rfl, ← List.reverse_sublist, List.reverse_reverse]
  show ¬ [h, s].Sublist xs ↔ _
  constructor
  · exact fun hnot => (before_or_before ho.nodup hs hh hne).resolve_right hnot
  · exact fun hbefore => before_asymm ho.nodup hbefore

/-- **What is not in the chain is safe.** -/
theorem run_isSafeToInspect_of_not_mem (ho : Orderly q xs) (hs : s ∈ xs) (hh : h ∉ xs)
    (hhandle : h.isSnapshot = false) : (isSafeToInspect s (some h)).run q = .ok true q :=
  run_isSafeToInspect_eq ho hhandle (judge_of_not_mem (by simpa using hh) (by simpa using hs))

end Queue
end RopeStore.Deferral
