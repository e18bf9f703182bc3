import Mathlib.Data.List.Basic
import RopeStore.Heap.Part
import RopeStore.Heap.Release
import RopeStore.Proofs.Count.Immortal
import RopeStore.Proofs.Heap.Create

/-!
# Properties of a heap that operations on nodes keep

* `Stable P` : the property `P` of heaps stays when a count changes that is immortal as before, a mortal
  node goes or a notice is left;
* `Stable.retain`, `Stable.release` and so on : then it is kept by every step that makes no node, also
  where the step faults;
* `Grows P` : the property stays when a node is pushed that holds its bytes itself; `Grows.ofBytes` and so
  on : the steps that push one;
* `Stable.newView`, `Stable.part`, `Stable.partOrCopy` : the steps that may push a view.
-/

namespace RopeStore
variable {ρ α : Type} {P Q : Heap ρ → Prop} {h : Heap ρ}

/-- A property of heaps that stays when a count changes that is immortal as before, a mortal node goes or a
notice is left. -/
structure Stable (P : Heap ρ → Prop) : Prop where
  tell : ∀ {h : Heap ρ} (ns : List (Notice ρ)), P h → P (h.tell ns)
  putRefs : ∀ {h : Heap ρ} {id : NodeId} {n : Node ρ}, h.find? id = some n →
    ∀ refs, refs.isImmortal = n.refs.isImmortal → P h → P (h.put id { n with refs })
  without : ∀ {h : Heap ρ} {id : NodeId} {n : Node ρ}, h.find? id = some n →
    n.refs.isImmortal = false → P h → P (h.without id)

namespace Stable

/-! ## Steps that make no node -/

theorem leaves_attempt (hp : Stable P) (hh : P h) (outcome : Except Fault α) :
    Leaves (Heap.attempt outcome) h (fun a h' => outcome = .ok a ∧ h' = h) fun _ h' => P h' := by
  cases outcome with
  | ok a => exact ⟨rfl, rfl⟩
  | error fault =>
    rw [Heap.attempt]
    cases (Notice.ofFault? fault : Option (Notice ρ)) with
    | none => exact hh
    | some n => exact hp.tell [n] hh

theorem leaves_ask (hp : Stable P) (hh : P h) (read : Heap ρ → Except Fault α) :
    Leaves (Heap.ask read) h (fun a h' => read h = .ok a ∧ h' = h) fun _ h' => P h' :=
  leaves_bind.2 (hp.leaves_attempt hh (read h))

theorem attempt (hp : Stable P) (outcome : Except Fault α) : Preserves P (Heap.attempt outcome) :=
  fun _ hh => (hp.leaves_attempt hh outcome).mono (fun _ _ hok => hok.2 ▸ hh) fun _ _ ht => ht

theorem ask (hp : Stable P) (read : Heap ρ → Except Fault α) : Preserves P (Heap.ask read) :=
  preserves_get.bind fun h => hp.attempt (read h)

/-- The node whose count is written is the one that was read just before. -/
theorem leaves_onCount (hp : Stable P) (hh : P h) (id : NodeId) {op : EStateM Fault RefCount α}
    (hop : ∀ mark, Preserves (fun c => c.isImmortal = mark) op) :
    Leaves (Heap.onCount id op) h
      (fun a h' => P h' ∧ ∃ (n : Node ρ) (refs : RefCount), op.run n.refs = .ok a refs ∧
        h'.find? id = some { n with refs })
      fun _ h' => P h' := by
  cases hfind : h.find? id with
  | none =>
    exact leaves_of_run_eq_error (run_bind_of_run_eq_error (Heap.run_ask_node_of_dead hfind)) hh
  | some n =>
    have hmark := hop n.refs.isImmortal n.refs rfl
    cases hrun : op.run n.refs with
    | ok a refs =>
      refine leaves_of_run_eq_ok (Heap.run_onCount hfind hrun)
        ⟨hp.putRefs hfind refs (hmark.good_of_run_eq_ok hrun) hh, n, refs, hrun, ?_⟩
      rw [Heap.find?_put hfind, if_pos rfl]
    | error fault refs =>
      exact leaves_of_run_eq_error (Heap.run_onCount_of_run_eq_error hfind hrun)
        (hp.putRefs hfind refs (hmark.bad_of_run_eq_error hrun) hh)

theorem retain (hp : Stable P) (id : NodeId) : Preserves P (Heap.retain id) := fun _ hh =>
  (hp.leaves_onCount hh id RefCount.preserves_increment).mono (fun _ _ hleft => hleft.1) fun _ _ ht => ht

theorem clone (hp : Stable P) (id : NodeId) : Preserves P (do Heap.retain id; return id) :=
  (hp.retain id).bind fun _ => preserves_pure id

theorem ofStatic (hp : Stable P) (id : NodeId) : Preserves P (Heap.ofStatic id) :=
  (hp.ask _).bind fun _ => (hp.attempt _).bind fun _ => hp.clone id

/-- A node whose last reference was given up is mortal, and stays so. -/
theorem leaves_decrement (hp : Stable P) (hh : P h) (id : NodeId) :
    Leaves (Heap.onCount id RefCount.decrementExpectHigh) h
      (fun left h' => P h' ∧ (left = false → ∃ n, h'.find? id = some n ∧ n.refs.isImmortal = false))
      fun _ h' => P h' := by
  refine (hp.leaves_onCount hh id RefCount.preserves_decrementExpectHigh).mono ?_ fun _ _ ht => ht
  rintro left h' ⟨hh', n, refs, hrun, hn⟩
  refine ⟨hh', fun hleft => ⟨_, hn, ?_⟩⟩
  have hmark := RefCount.preserves_decrementExpectHigh _ n.refs rfl
  rw [show refs.isImmortal = _ from hmark.good_of_run_eq_ok hrun, Bool.eq_false_iff]
  intro himm
  rw [RefCount.run_decrementExpectHigh_of_isImmortal himm, hleft] at hrun
  cases hrun

/-- A release writes counts and takes mortal nodes away, down to the last child. -/
theorem releaseWithin (hp : Stable P) (depth : Nat) (id : NodeId) :
    Preserves P (Heap.releaseWithin depth id) := by
  induction depth generalizing id with
  | zero => exact preserves_throw _
  | succ depth ih =>
    intro h hh
    refine (hp.leaves_decrement hh id).bind ?_
    rintro left h₁ ⟨hh₁, hmortal⟩
    cases left with
    | true => exact hh₁
    | false =>
      obtain ⟨n, hn, hmark⟩ := hmortal rfl
      refine (hp.leaves_ask hh₁ (·.body id)).bind ?_
      rintro body _ ⟨-, rfl⟩
      cases body with
      | buffer tag bytes =>
        refine (hp.leaves_attempt (hp.tell [_] hh₁) _).bind ?_
        rintro _ _ ⟨-, rfl⟩
        exact hp.without hn hmark (hp.tell [_] hh₁)
      | external bytes keeper =>
        cases keeper with
        | permanent => exact hh₁
        | copied => exact hp.without hn hmark (hp.tell [_] hh₁)
        | lent owner => exact hp.without hn hmark (hp.tell [_] hh₁)
      | view start length child => exact ih child _ (hp.without hn hmark hh₁)
      | malformed tag length => exact hp.attempt _ _ hh₁

theorem release (hp : Stable P) (id : NodeId) : Preserves P (Heap.release id) :=
  preserves_get.bind fun h => hp.releaseWithin h.nodes.size id

end Stable

/-! ## Steps that make a node -/

/-- A property that stays when a new node is pushed that holds its bytes itself. -/
def Grows (P : Heap ρ → Prop) : Prop :=
  ∀ {h : Heap ρ} {b : Body ρ} {data : List UInt8}, b.Stores data → P h → P (h.push ⟨.fresh, b⟩)

namespace Grows

theorem newBuffer (hg : Grows P) (length : Nat) : Preserves P (Heap.newBuffer length) := by
  intro h hh
  obtain ⟨tag, hrun, htag, -⟩ := Heap.run_newBuffer length h
  exact leaves_of_run_eq_ok hrun
    (hg (Body.stores_buffer htag (SizeClass.headerSize_le_sizeFor htag)) hh)

theorem newLargeBuffer (hg : Grows P) (length : Nat) : Preserves P (Heap.newLargeBuffer length) := by
  intro h hh
  obtain ⟨tag, hrun, htag, -⟩ := Heap.run_newLargeBuffer length h
  exact leaves_of_run_eq_ok hrun
    (hg (Body.stores_buffer htag (SizeClass.headerSize_le_sizeFor htag)) hh)

theorem ofBytes (hg : Grows P) {data : List UInt8} (hlen : data.length < wordBound) :
    Preserves P (Heap.ofBytes data) := by
  intro h hh
  obtain ⟨b, hrun, hb⟩ := Heap.run_ofBytes hlen h
  exact leaves_of_run_eq_ok hrun (hg hb hh)

theorem bufferWithExtra (hg : Grows P) (data : List UInt8) (extra : Nat) :
    Preserves P (Heap.bufferWithExtra data extra) := by
  intro h hh
  by_cases hlen : data.length ≤ SizeClass.maxLength
  · obtain ⟨b, hrun, hb⟩ := Heap.run_bufferWithExtra hlen extra h
    exact leaves_of_run_eq_ok hrun (hg hb hh)
  · exact leaves_of_run_eq_error
      (Heap.run_bufferWithExtra_of_lt (Nat.lt_of_not_le hlen) extra h) hh

theorem ofOwner (hg : Grows P) {bytes : List UInt8} (hlen : bytes.length < wordBound) (owner : ρ) :
    Preserves P (Heap.ofOwner bytes owner) := fun h hh =>
  leaves_of_run_eq_ok (Heap.run_ofOwner bytes owner h) (hg (Body.stores_external hlen (by simp)) hh)

end Grows

theorem length_of_slice {bytes data : List UInt8} {start count : Nat}
    (hslice : slice bytes start count = .ok data) : data.length = count := by
  unfold slice at hslice
  split at hslice
  · cases hslice
    rw [List.length_take, List.length_drop]
    omega
  · cases hslice

namespace Stable

theorem newView (hp : Stable P) (hpq : ∀ h, P h → Q h) {child : NodeId} {start count : Nat}
    (hpush : ∀ h, P h → Q (h.push ⟨.fresh, .view start count child⟩)) :
    Takes P Q (Heap.newView child start count) :=
  (hp.ask _).takes_bind hpq fun _ => (hp.attempt _).takes_bind hpq fun _ =>
    (hp.retain child).takes_bind hpq fun _ h hh => hpush h hh

theorem part (hp : Stable P) (hpq : ∀ h, P h → Q h)
    (hview : ∀ child start count, Takes P Q (Heap.newView child start count)) (id : NodeId)
    (pos count : Nat) : Takes P Q (Heap.part id pos count) := by
  refine (hp.ask _).takes_bind hpq fun body => (hp.attempt _).takes_bind hpq fun _ => ?_
  split
  · exact (hp.clone id).takes hpq
  · split
    · exact (hp.attempt _).takes_bind hpq fun _ => hview _ _ count
    · exact hview id pos count

/-- What is copied is too short to be more than a word can count. -/
theorem partOrCopy (hp : Stable P) (hg : Grows P)
    (hview : ∀ child start count, Preserves P (Heap.newView child start count)) (id : NodeId)
    (pos count : Nat) : Preserves P (Heap.partOrCopy id pos count) := by
  refine (hp.ask _).bind fun length => ?_
  split
  · exact hp.part (fun _ hh => hh) hview id pos count
  · rename_i hfew
    refine (hp.attempt _).bind fun _ h hh => ?_
    refine (hp.leaves_ask hh _).bind ?_
    rintro data _ ⟨hread, rfl⟩
    refine hg.ofBytes ?_ _ hh
    obtain ⟨all, -, hslice⟩ := except_bind_eq_ok_iff.1 hread
    have hlimit : Heap.copyLimit < wordBound := by decide
    rw [length_of_slice hslice]
    omega

end Stable
end RopeStore
