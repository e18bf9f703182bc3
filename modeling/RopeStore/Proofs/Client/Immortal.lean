import Mathlib.Data.List.Basic
import RopeStore.Proofs.Client.Lasting
import RopeStore.Proofs.Count.Immortal

/-!
# Nodes that live for ever

Here references are taken and given up that nobody has, as often as one likes.

* `Abides h h'` : on the way from `h` to `h'` the immortal nodes stayed with their bodies, and no node
  that was there became immortal or mortal; `stable_abides`, `abides_append` : so it is on every way;
* `NodeCall` : what can be done to nodes, and to their counts alone; `Heap.afterCalls` : all of it in its
  order, also what faults;
* `run_release_of_isImmortal` : giving up a reference to an immortal node only counts it;
* `immortality_is_settled_at_birth` : what holds after all calls, for one count and for all nodes.
-/

namespace RopeStore
variable {ρ : Type} {P : Heap ρ → Prop}

/-- The immortal nodes stayed with their bodies, and no node that was there became immortal or mortal. -/
structure Abides (h h' : Heap ρ) : Prop where
  size : h.nodes.size ≤ h'.nodes.size
  kept : ∀ {id n}, h.find? id = some n → n.refs.isImmortal = true →
    ∃ refs, h'.find? id = some { n with refs }
  mark : ∀ {id n'}, id.index < h.nodes.size → h'.find? id = some n' →
    ∃ n, h.find? id = some n ∧ n'.refs.isImmortal = n.refs.isImmortal

namespace Abides
variable {h h' h'' : Heap ρ} {id : NodeId} {n m : Node ρ}

theorem refl (h : Heap ρ) : Abides h h where
  size := Nat.le_refl _
  kept hn _ := ⟨_, hn⟩
  mark _ hn := ⟨_, hn, rfl⟩

theorem isImmortal (ha : Abides h h') (hn : h.find? id = some n) (hm : h'.find? id = some m) :
    m.refs.isImmortal = n.refs.isImmortal := by
  obtain ⟨n', hn', hmark⟩ := ha.mark (Heap.lt_size_of_find? hn) hm
  rw [hn] at hn'
  cases hn'
  exact hmark

theorem trans (h₁ : Abides h h') (h₂ : Abides h' h'') : Abides h h'' where
  size := Nat.le_trans h₁.size h₂.size
  kept := by
    intro id n hn himm
    obtain ⟨refs, hn'⟩ := h₁.kept hn himm
    obtain ⟨refs', hn''⟩ := h₂.kept hn' ((h₁.isImmortal hn hn').trans himm)
    exact ⟨refs', hn''⟩
  mark := by
    intro id n'' hid hn''
    obtain ⟨n', hn', hmark'⟩ := h₂.mark (Nat.lt_of_lt_of_le hid h₁.size) hn''
    obtain ⟨n, hn, hmark⟩ := h₁.mark hid hn'
    exact ⟨n, hn, hmark'.trans hmark⟩

theorem put (hn : h.find? id = some n) (hmark : m.refs.isImmortal = n.refs.isImmortal)
    (hbody : n.refs.isImmortal = true → m.body = n.body) : Abides h (h.put id m) where
  size := Nat.le_of_eq (Arena.size_set ..).symm
  kept := by
    intro j k hk himm
    rw [Heap.find?_put hn]
    by_cases hj : j = id
    · rw [hj, hn] at hk
      cases hk
      exact ⟨m.refs, by rw [if_pos hj, ← hbody himm]⟩
    · exact ⟨k.refs, by rw [if_neg hj, hk]⟩
  mark := by
    intro j k' _ hk'
    rw [Heap.find?_put hn] at hk'
    split at hk'
    · rename_i hj
      cases hk'
      exact ⟨n, hj ▸ hn, hmark⟩
    · exact ⟨k', hk', rfl⟩

theorem without (hn : h.find? id = some n) (hmortal : n.refs.isImmortal = false) :
    Abides h (h.without id) where
  size := Nat.le_of_eq (Arena.size_erase ..).symm
  kept := by
    intro j k hk himm
    rw [Heap.find?_without, if_neg]
    · exact ⟨k.refs, hk⟩
    · rintro rfl
      rw [hn] at hk
      cases hk
      rw [hmortal] at himm
      cases himm
  mark := by
    intro j k' _ hk'
    rw [Heap.find?_without] at hk'
    split at hk'
    · cases hk'
    · exact ⟨k', hk', rfl⟩

theorem push (h : Heap ρ) (m : Node ρ) : Abides h (h.push m) where
  size := by
    rw [Heap.size_push]
    exact Nat.le_succ _
  kept := by
    intro j k hk _
    rw [Heap.find?_push, if_neg]
    · exact ⟨k.refs, hk⟩
    · rintro rfl
      rw [Heap.find?_next] at hk
      cases hk
  mark := by
    intro j k' hj hk'
    rw [Heap.find?_push, if_neg] at hk'
    · exact ⟨k', hk', rfl⟩
    · rintro rfl
      exact Nat.lt_irrefl _ hj

end Abides

/-! ## Operations on nodes -/

theorem stable_abides (h : Heap ρ) : Stable (Abides h) where
  tell _ ha := ha.trans ⟨Nat.le_refl _, fun hn _ => ⟨_, hn⟩, fun _ hn => ⟨_, hn, rfl⟩⟩
  putRefs hn _ hmark ha := ha.trans (.put hn hmark fun _ => rfl)
  without hn hmortal ha := ha.trans (.without hn hmortal)

theorem lasting_abides (h : Heap ρ) : Lasting (Abides h) :=
  (stable_abides h).lasting (fun _ ha => ha.trans (.push ..)) (fun _ _ ha => ha.trans (.push ..))
    fun _ _ _ => (stable_abides h).newView (fun _ ha => ha) fun _ ha => ha.trans (.push ..)

/-- Only a node with one reference is written to, and that is not immortal. -/
theorem abides_append (h : Heap ρ) (id : NodeId) (data : List UInt8) :
    Preserves (Abides h) (Heap.append id data) := by
  intro t ha
  have hp := stable_abides h
  refine (hp.leaves_ask ha _).bind ?_
  rintro n _ ⟨hnode, rfl⟩
  have hn := Heap.node_eq_ok_iff.1 hnode
  split
  · split
    · rename_i hone
      have hmortal : n.refs.isImmortal ≠ true := by
        intro himm
        rw [RefCount.isOne_of_isImmortal himm] at hone
        cases hone
      refine (hp.leaves_attempt ha _).bind ?_
      rintro capacity _ ⟨-, rfl⟩
      refine (hp.leaves_attempt ha _).bind ?_
      rintro room _ ⟨-, rfl⟩
      exact ha.trans (.put hn rfl fun himm => absurd himm hmortal)
    · exact ha
  · exact ha

/-- What can be done to nodes and to their counts. Nobody asks whether there is a reference for it. -/
inductive NodeCall (ρ : Type)
  | newBuffer (length : Nat)
  | newLargeBuffer (length : Nat)
  | ofBytes (data : Bytes)
  | bufferWithExtra (data : Bytes) (extra : Nat)
  | ofOwner (bytes : Bytes) (owner : ρ)
  | newStatic (bytes : Bytes)
  | ofStatic (id : NodeId)
  | part (id : NodeId) (pos count : Nat)
  | partOrCopy (id : NodeId) (pos count : Nat)
  | append (id : NodeId) (data : List UInt8)
  | retain (id : NodeId)
  | release (id : NodeId)
  | onCount (id : NodeId) (action : Drill.Count.Action)

namespace NodeCall

def run : NodeCall ρ → HeapM ρ Unit
  | .newBuffer length => do let _ ← Heap.newBuffer length
  | .newLargeBuffer length => do let _ ← Heap.newLargeBuffer length
  | .ofBytes data => do let _ ← Heap.ofBytes data.1
  | .bufferWithExtra data extra => do let _ ← Heap.bufferWithExtra data.1 extra
  | .ofOwner bytes owner => do let _ ← Heap.ofOwner bytes.1 owner
  | .newStatic bytes => do let _ ← Heap.newStatic bytes.1
  | .ofStatic id => do let _ ← Heap.ofStatic id
  | .part id pos count => do let _ ← Heap.part id pos count
  | .partOrCopy id pos count => do let _ ← Heap.partOrCopy id pos count
  | .append id data => do let _ ← Heap.append id data
  | .retain id => Heap.retain id
  | .release id => Heap.release id
  | .onCount id action => do let _ ← Heap.onCount id action.perform

theorem abides_run (h : Heap ρ) (call : NodeCall ρ) : Preserves (Abides h) call.run := by
  have hl := lasting_abides h
  have hignore : ∀ {α : Type} {op : HeapM ρ α}, Preserves (Abides h) op →
      Preserves (Abides h) (do let _ ← op) := fun hop => hop.bind fun _ => preserves_pure _
  cases call with
  | newBuffer length => exact hignore (hl.newBuffer length)
  | newLargeBuffer length => exact hignore (hl.newLargeBuffer length)
  | ofBytes data => exact hignore (hl.ofBytes data)
  | bufferWithExtra data extra => exact hignore (hl.bufferWithExtra data extra)
  | ofOwner bytes owner => exact hignore (hl.ofOwner bytes owner)
  | newStatic bytes => exact hignore (hl.newStatic bytes)
  | ofStatic id => exact hignore (hl.ofStatic id)
  | part id pos count => exact hignore (hl.part id pos count)
  | partOrCopy id pos count => exact hignore (hl.partOrCopy id pos count)
  | append id data => exact hignore (abides_append h id data)
  | retain id => exact hl.retain id
  | release id => exact hl.release id
  | onCount id action =>
    refine hignore fun t ha => ?_
    have hleaves := (stable_abides h).leaves_onCount ha id fun mark =>
      Drill.Count.preserves_perform mark action
    exact hleaves.mono (fun _ _ hleft => hleft.1) fun _ _ ht => ht

end NodeCall

namespace Heap
variable {h : Heap ρ} {id : NodeId} {n : Node ρ}

/-- The heap after all calls in their order. One that faults is over, and what it did stays done. -/
def afterCalls (h : Heap ρ) : List (NodeCall ρ) → Heap ρ
  | [] => h
  | call :: rest =>
    match call.run.run h with
    | .ok _ after => after.afterCalls rest
    | .error _ after => after.afterCalls rest

theorem abides_afterCalls {t : Heap ρ} (ha : Abides h t) (calls : List (NodeCall ρ)) :
    Abides h (t.afterCalls calls) := by
  induction calls generalizing t with
  | nil => exact ha
  | cons call rest ih =>
    have hkeeps := call.abides_run h t ha
    unfold Leaves at hkeeps
    rw [afterCalls]
    cases hrun : call.run.run t with
    | ok _ after =>
      rw [hrun] at hkeeps
      exact ih hkeeps
    | error fault after =>
      rw [hrun] at hkeeps
      exact ih hkeeps

/-- Giving up a reference to an immortal node only counts it. -/
theorem run_release_of_isImmortal (hn : h.find? id = some n) (himm : n.refs.isImmortal = true) :
    (release id).run h = .ok () (h.put id { n with refs := ⟨n.refs.packed - RefCount.unit⟩ }) := by
  obtain ⟨depth, hdepth⟩ := Nat.exists_eq_succ_of_ne_zero (Nat.ne_zero_of_lt (lt_size_of_find? hn))
  show (releaseWithin h.nodes.size id).run h = _
  rw [hdepth, releaseWithin,
    run_bind_of_run_eq_ok (run_onCount hn (RefCount.run_decrementExpectHigh_of_isImmortal himm))]
  rfl

end Heap

/-- **Whether a count is immortal is settled when it is made. An immortal one stays so whatever is done to
it, is never that of one reference, always gives up a reference and never faults; any other never becomes
immortal, also where something faults. So a node that lives for ever is there with its bytes after all
calls, however many references were taken and given up: nothing is appended to it, and giving up a
reference only counts it.** -/
theorem immortality_is_settled_at_birth (actions : List Drill.Count.Action) (h : Heap ρ)
    (calls : List (NodeCall ρ)) :
    let h' := h.afterCalls calls
    (∀ note ∈ Drill.Count.run .immortal actions,
      note.count.isImmortal = true ∧ note.count.isOne = false) ∧
    List.Forall₂ (fun a note => note.outcome = .ok (a.answer note.count)) actions
      (Drill.Count.notes .immortal actions) ∧
    (∀ note ∈ Drill.Count.run .fresh actions, note.count.isImmortal = false) ∧
    (∀ bytes, ∃ made, (Heap.newStatic bytes).run h = .ok h.next made ∧
      made.find? h.next = some ⟨.immortal, .external bytes .permanent⟩) ∧
    (∀ id n, h.find? id = some n → n.refs.isImmortal = true →
      ∃ refs, h'.find? id = some { n with refs } ∧ refs.isImmortal = true ∧ refs.isOne = false ∧
        (∀ data, (Heap.append id data).run h' = .ok 0 h') ∧
        (Heap.release id).run h' =
          .ok () (h'.put id { n with refs := ⟨refs.packed - RefCount.unit⟩ })) ∧
    ∀ id n n', h.find? id = some n → h'.find? id = some n' →
      n'.refs.isImmortal = n.refs.isImmortal := by
  intro h'
  have ha : Abides h h' := Heap.abides_afterCalls (.refl h) calls
  refine ⟨fun note hnote => ?_,
    Drill.Count.forall₂_notes_of_isImmortal RefCount.isImmortal_immortal actions,
    Drill.Count.isImmortal_of_mem_run (by decide) actions, fun bytes => ⟨_, Heap.run_newStatic bytes h, ?_⟩,
    ?_, fun id n n' hn hn' => ha.isImmortal hn hn'⟩
  · have himm := Drill.Count.isImmortal_of_mem_run RefCount.isImmortal_immortal actions note hnote
    exact ⟨himm, RefCount.isOne_of_isImmortal himm⟩
  · rw [Heap.find?_push, if_pos rfl]
  · intro id n hn himm
    obtain ⟨refs, hn'⟩ := ha.kept hn himm
    have himm' : refs.isImmortal = true := (ha.isImmortal hn hn').trans himm
    have hone := RefCount.isOne_of_isImmortal himm'
    exact ⟨refs, hn', himm', hone, Heap.run_append_eq_zero hn' (.inr hone),
      Heap.run_release_of_isImmortal hn' himm'⟩

/-- More references are given up than were ever taken, so the word is negative, and the node stays. -/
example : ((Heap.initial : Heap Nat).afterCalls [.newStatic ⟨[7], by decide⟩, .release ⟨1⟩,
    .onCount ⟨1⟩ .decrement, .append ⟨1⟩ [8]]).find? ⟨1⟩ =
      some ⟨⟨-3⟩, .external [7] .permanent⟩ := by decide

end RopeStore
