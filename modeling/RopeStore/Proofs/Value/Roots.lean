import Mathlib.Data.List.Basic
import RopeStore.Value.Change
import RopeStore.Proofs.Heap.Evolve

/-!
# The root of a value as an owner

A value that is a tree owns one reference to its root, and a short value owns nothing.

* `Value.roots` : the references that a value owns; `roots_*` : what they are;
* `Settles h held s` : after a change of a value and its heap, which was `h` before, the counts are
  right for the owners `held` and the value;
* `leaves_dropRoot`, `leaves_setBytes`, `leaves_makeTree`, `leaves_replaceRoot`, `ends_extractRoot`,
  `leaves_clear`, `leaves_copy`, `ends_clone` : every change, also where it faults, moves references
  between the value, its caller and the heap, and none gets lost on the way.
-/

namespace RopeStore.Value
variable {ρ α : Type} {h : Heap ρ} {held : List NodeId} {v : Value} {root : NodeId}

def roots (v : Value) : List NodeId := v.root?.toList

theorem roots_of_none (hroot : v.root? = none) : v.roots = [] := by
  rw [roots, hroot]
  rfl

theorem roots_of_some (hroot : v.root? = some root) : v.roots = [root] := by
  rw [roots, hroot]
  rfl

/-! ## Roots of the values that are made -/

@[simp] theorem roots_new : new.roots = [] := rfl

theorem roots_ofShort {data : List UInt8} (hv : ofShort data = .ok v) : v.roots = [] := by
  rw [ofShort] at hv
  split at hv
  · cases hv
    rfl
  · cases hv

theorem isTree_nullSlot (root : NodeId) : (ofTree root).isTree = true := by
  rw [isTree, ofTree, control]
  decide

@[simp] theorem roots_ofTree (root : NodeId) : (ofTree root).roots = [root] :=
  roots_of_some (if_pos (isTree_nullSlot root))

theorem takeRoot_of_none (hroot : v.root? = none) : v.takeRoot = (none, v) := by
  rw [takeRoot, hroot]

theorem takeRoot_of_some (hroot : v.root? = some root) : v.takeRoot = (some root, cleared) := by
  rw [takeRoot, hroot]

theorem setRoot_eq_ok {old : NodeId} {w : Value} (hset : v.setRoot root = .ok (old, w)) :
    v.roots = [old] ∧ w.roots = [root] := by
  cases v with
  | short control payload => cases hset
  | tree slot was =>
    rw [setRoot] at hset
    split at hset
    · rename_i htree
      cases hset
      exact ⟨roots_of_some (if_pos htree), roots_of_some (if_pos htree)⟩
    · cases hset

/-! ## Steps on a value and its heap -/

theorem run_onHeap (op : HeapM ρ α) (s : Held ρ) :
    (onHeap op).run s = match op.run s.heap with
      | .ok a heap => .ok a { s with heap }
      | .error fault heap => .error fault { s with heap } :=
  rfl

theorem leaves_onHeap {op : HeapM ρ α} {s : Held ρ} {good : α → Held ρ → Prop}
    {bad : Fault → Held ρ → Prop} :
    Leaves (onHeap op) s good bad ↔
      Leaves op s.heap (fun a heap => good a { s with heap }) fun e heap =>
        bad e { s with heap } := by
  unfold Leaves onHeap EStateM.run
  dsimp only
  cases op s.heap <;> rfl

theorem leaves_put {change : Except Fault Value} {s : Held ρ} {good : Unit → Held ρ → Prop}
    {bad : Fault → Held ρ → Prop} (hok : ∀ value, change = .ok value → good () { s with value })
    (herror : ∀ fault, change = .error fault → bad fault s) : Leaves (put change) s good bad := by
  cases hchange : change with
  | ok value => exact hok value hchange
  | error fault => exact herror fault hchange

/-- The counts are right again, and only as much was destroyed as may be. -/
def Settles (h : Heap ρ) (held : List NodeId) (s : Held ρ) : Prop :=
  Owned s.heap (s.value.roots ++ held) ∧ ∃ gone, Evolves h s.heap gone

/-- The value owns nothing any more, and only what its root was needed for was destroyed. -/
def Dropped (h : Heap ρ) (held : List NodeId) (s : Held ρ) : Prop :=
  s.value.roots = [] ∧ Owned s.heap held ∧ ∃ gone, Lost h s.heap gone

theorem Dropped.settles {s : Held ρ} (hd : Dropped h held s) : Settles h held s := by
  obtain ⟨hnone, howned, gone, hgone⟩ := hd
  rw [Settles, hnone]
  exact ⟨howned, gone, hgone.evolves⟩

theorem run_dropRoot_of_none (hroot : v.root? = none) :
    dropRoot.run (⟨h, v⟩ : Held ρ) = .ok () ⟨h, v⟩ := by
  rw [dropRoot, run_bind_of_run_eq_ok (EStateM.run_get _)]
  simp only [takeRoot_of_none hroot]
  rfl

theorem run_dropRoot_of_some (hroot : v.root? = some root) :
    dropRoot.run (⟨h, v⟩ : Held ρ) = (onHeap (Heap.release root)).run ⟨h, cleared⟩ := by
  rw [dropRoot, run_bind_of_run_eq_ok (EStateM.run_get _)]
  simp only [takeRoot_of_some hroot]
  rfl

theorem leaves_dropRoot (ho : Owned h (v.roots ++ held)) (hl : Legible h (v.roots ++ held)) :
    Leaves dropRoot (⟨h, v⟩ : Held ρ) (fun _ s => Dropped h held s) fun _ s =>
      Dropped h held s := by
  cases hroot : v.root? with
  | none =>
    have hnone := roots_of_none hroot
    rw [hnone] at ho
    exact leaves_of_run_eq_ok (run_dropRoot_of_none hroot) ⟨hnone, ho, [], Lost.refl h⟩
  | some root =>
    rw [roots_of_some hroot] at ho hl
    unfold Leaves
    rw [run_dropRoot_of_some hroot]
    refine leaves_onHeap.2 ((Heap.leaves_release ho hl).mono ?_ ?_)
    · rintro _ h' ⟨hgone, howned⟩
      exact ⟨rfl, howned, hgone⟩
    · rintro _ h' ⟨⟨hgone, howned⟩, -⟩
      exact ⟨rfl, howned, hgone⟩

theorem leaves_setBytes (ho : Owned h (v.roots ++ held)) (hl : Legible h (v.roots ++ held))
    (data : List UInt8) :
    Leaves (setBytes data) (⟨h, v⟩ : Held ρ) (fun _ s => Settles h held s) fun _ s =>
      Settles h held s := by
  apply Leaves.bind ((leaves_dropRoot ho hl).mono (fun _ _ hd => hd) fun _ _ hd => hd.settles)
  intro _ s hd
  refine leaves_put ?_ fun _ _ => hd.settles
  intro value hvalue
  obtain ⟨-, howned, gone, hgone⟩ := hd
  refine ⟨?_, gone, hgone.evolves⟩
  rw [roots_ofShort hvalue]
  exact howned

/-- Where the old root cannot be given up, the new one is given up too. -/
theorem leaves_makeTree (ho : Owned h (v.roots ++ root :: held))
    (hl : Legible h (v.roots ++ root :: held)) :
    Leaves (makeTree root) (⟨h, v⟩ : Held ρ) (fun _ s => Settles h held s) fun _ s =>
      Settles h held s := by
  apply leaves_tryCatch.2
  have hfault : ∀ fault s, Dropped h (root :: held) s →
      Leaves (do onHeap (Heap.release root); throw fault : ValueM ρ Unit) s
        (fun _ t => Settles h held t) fun _ t => Settles h held t := by
    rintro fault s ⟨hnone, howned, gone, hgone⟩
    have hlegible : Legible s.heap (root :: held) := hgone.legible hl fun j => by
      rw [List.count_append]
      omega
    have hsettles : ∀ h', (∃ gone', Lost s.heap h' gone') → Owned h' held →
        Settles h held ⟨h', s.value⟩ := by
      rintro h' ⟨gone', hgone'⟩ howned'
      exact Dropped.settles ⟨hnone, howned', _, hgone.trans hgone'⟩
    refine leaves_bind.2 (leaves_onHeap.2 ((Heap.leaves_release howned hlegible).mono ?_ ?_))
    · rintro _ h' ⟨hgone', howned'⟩
      exact (leaves_throw _).2 (hsettles h' hgone' howned')
    · rintro _ h' ⟨⟨hgone', howned'⟩, -⟩
      exact hsettles h' hgone' howned'
  apply Leaves.bind ((leaves_dropRoot ho hl).mono (fun _ _ hd => hd) hfault)
  rintro _ s ⟨hnone, howned, gone, hgone⟩
  apply leaves_put
  · intro value hvalue
    cases hvalue
    refine ⟨?_, gone, hgone.evolves⟩
    rw [roots_ofTree]
    exact howned
  · intro fault hfault
    cases hfault

/-- The new root is the value's, and the old one the caller's; a fault gives up the new one. -/
theorem leaves_replaceRoot (ho : Owned h (root :: (v.roots ++ held)))
    (hl : Legible h (root :: (v.roots ++ held))) :
    Leaves (replaceRoot root) (⟨h, v⟩ : Held ρ)
      (fun old s => Owned s.heap (s.value.roots ++ old :: held) ∧ ∃ gone, Evolves h s.heap gone)
      fun _ s => Settles h held s := by
  apply leaves_tryCatch.2
  refine leaves_bind.2 (leaves_get.2 ?_)
  cases hset : v.setRoot root with
  | ok p =>
    obtain ⟨old, w⟩ := p
    obtain ⟨hold, hnew⟩ := setRoot_eq_ok hset
    apply (leaves_bind_of_run_eq_ok (b := (old, w)) rfl).2
    refine leaves_bind.2 ((leaves_modify _).2 ((leaves_pure _).2 ⟨?_, [], Evolves.refl h⟩))
    rw [hold] at ho
    rw [hnew]
    exact ho
  | error fault =>
    apply leaves_of_run_eq_error (run_bind_of_run_eq_error (e := fault) rfl)
    exact leaves_bind.2 (leaves_onHeap.2 (Heap.leaves_release_evolves ho hl))

theorem run_extractRoot_of_none (hroot : v.root? = none) :
    extractRoot.run (⟨h, v⟩ : Held ρ) = .ok none ⟨h, v⟩ := by
  rw [extractRoot, run_bind_of_run_eq_ok (EStateM.run_get _)]
  simp only [takeRoot_of_none hroot]
  rfl

theorem ends_extractRoot (ho : Owned h (v.roots ++ held)) :
    Ends extractRoot (⟨h, v⟩ : Held ρ) fun root s =>
      Owned s.heap (s.value.roots ++ (root.toList ++ held)) ∧ ∃ gone, Evolves h s.heap gone := by
  cases hroot : v.root? with
  | none => exact ends_of_run_eq_ok (run_extractRoot_of_none hroot) ⟨ho, [], Evolves.refl h⟩
  | some root =>
    have hrun : extractRoot.run (⟨h, v⟩ : Held ρ) = .ok (some root) ⟨h, cleared⟩ := by
      rw [extractRoot, run_bind_of_run_eq_ok (EStateM.run_get _)]
      simp only [takeRoot_of_some hroot]
      rfl
    rw [roots_of_some hroot] at ho
    exact ends_of_run_eq_ok hrun ⟨ho, [], Evolves.refl h⟩

theorem leaves_clear (ho : Owned h (v.roots ++ held)) (hl : Legible h (v.roots ++ held)) :
    Leaves clear (⟨h, v⟩ : Held ρ) (fun _ s => Settles h held s) fun _ s => Settles h held s :=
  leaves_setBytes ho hl []

/-! ## New values -/

/-- A copy that is a tree owns its root. -/
theorem leaves_copy (ho : Owned h held) {data : List UInt8} (hlen : data.length < wordBound) :
    Leaves (copy data : HeapM ρ Value) h
      (fun w h' => Owned h' (w.roots ++ held) ∧ Evolves h h' []) fun _ h' => h' = h := by
  unfold copy
  by_cases hshort : data.length ≤ maxShort
  · rw [if_pos hshort]
    cases hv : ofShort data with
    | ok w =>
      refine leaves_of_run_eq_ok (Heap.run_attempt_of_eq_ok rfl) ⟨?_, Evolves.refl h⟩
      rw [roots_ofShort hv]
      exact ho
    | error fault =>
      rw [ofShort, if_pos hshort] at hv
      cases hv
  · rw [if_neg hshort]
    refine leaves_bind.2 ((Heap.makes_ofBytes ho hlen).mono ?_ fun _ _ h => h)
    intro root h' hafter
    obtain ⟨howned, hev⟩ := hafter
    refine (leaves_pure _).2 ⟨?_, hev⟩
    rw [roots_ofTree]
    exact howned

theorem ends_clone (ho : Owned h held) (hlive : ∀ root, v.root? = some root → root ∈ held) :
    Ends (clone v : HeapM ρ Value) h fun w h' =>
      Owned h' (w.roots ++ held) ∧ Evolves h h' [] := by
  unfold clone
  cases hroot : v.root? with
  | none =>
    refine (ends_pure _).2 ⟨?_, Evolves.refl h⟩
    rw [roots_of_none hroot]
    exact ho
  | some root =>
    obtain ⟨n, hn⟩ := ho.live (hlive root hroot)
    refine (ends_bind_of_run_eq_ok (Heap.run_retain hn)).2 ((ends_pure _).2 ⟨?_, ?_⟩)
    · rw [roots_ofTree]
      exact ho.retain hn
    · exact Evolves.putRefs hn _

end RopeStore.Value
