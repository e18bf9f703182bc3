import Mathlib.Data.List.Basic
import Mathlib.Data.List.Infix
import RopeStore.Proofs.Client.Deeds
import RopeStore.Proofs.Client.Lasting
import RopeStore.Proofs.Heap.Inside

/-!
# Views stay inside their children

* `shaped_after` : the heap of a client is shaped after all deeds, also after those that fault and where
  counts have wrapped;
* `views_stay_inside` : so views lie properly inside what holds its bytes itself, parts are taken or
  refused for a reason, and nothing is followed further than from a view to its child;
* `crowd_loses_child` : a node with more owners than there are words for its count may be destroyed
  below a view.
-/

namespace RopeStore
variable {ρ : Type}

theorem lasting_shaped : Lasting (Heap.Shaped : Heap ρ → Prop) :=
  Heap.stable_shaped.lasting Heap.grows_shaped (fun bytes => Heap.shaped_newStatic bytes.2)
    Heap.shaped_newView

namespace Client
variable {c : Client ρ}

/-- **Every deed, also one that faults, keeps the heap shaped.** -/
theorem shaped_exec (hs : c.heap.Shaped) (d : Deed ρ) : (c.exec d).heap.Shaped := by
  cases d with
  | act a =>
    by_cases ha : ∃ i data, a = .append i data
    · obtain ⟨i, data, rfl⟩ := ha
      exact holds_elim hs fun id => holds_perform hs (Heap.shaped_append id data.1)
    · exact lasting_shaped.act hs fun i data hdata => ha ⟨i, data, hdata⟩
  | edit i e =>
    rw [heap_exec_edit]
    exact hs

theorem shaped_after (deeds : List (Deed ρ)) : (after deeds).heap.Shaped := by
  induction deeds using List.reverseRecOn with
  | nil => exact Heap.shaped_initial
  | append_singleton deeds d ih =>
    rw [after_concat]
    exact shaped_exec ih d

/-- **After every list of deeds, calls that fault included, every view lies properly inside its child,
which holds its bytes itself. A part of a node is taken, or refused because there is no such part or
something is gone; a node has as many bytes as its length says, unless something is gone; and reading a
node or giving one up goes from a view to its child and no further.** Nothing is gone that a live node
needs, as long as no node has had more owners than there are words for its count. -/
theorem views_stay_inside (deeds : List (Deed ρ)) :
    let h := (after deeds).heap
    (∀ id start length child, h.body? id = some (.view start length child) →
      0 < length ∧ ∀ c, h.body? child = some c →
        (c.kind = .ok .buffer ∨ c.kind = .ok .external) ∧
        length < c.length ∧ start + length ≤ c.length) ∧
    (∀ id pos count,
      Leaves (Heap.part id pos count) h (fun _ _ => True)
        (fun fault _ => Refusal h id pos count fault) ∧
      Leaves (Heap.partOrCopy id pos count) h (fun _ _ => True)
        fun fault _ => Refusal h id pos count fault) ∧
    (∀ id, (h.bytes id = .error .dangling ∧ h.body? (h.base id) = none) ∨
      ∃ b data, h.body? id = some b ∧ h.bytes id = .ok data ∧ data.length = b.length) ∧
    (∀ id, h.bytesWithin 2 id = h.bytes id ∧
      (Heap.releaseWithin 2 id).run h = (Heap.release id).run h) ∧
    (Uncrowded deeds → ∀ id b, h.body? id = some b →
        (∀ child, b.child? = some child → ∃ c, h.body? child = some c) ∧
        (∃ data, h.bytes id = .ok data ∧ data.length = b.length) ∧
        ∀ pos count fault h',
          (Heap.part id pos count).run h = .error fault h' ∨
            (Heap.partOrCopy id pos count).run h = .error fault h' →
          fault = .badPart count pos b.length ∧
            ¬ (0 < count ∧ pos < b.length ∧ count ≤ b.length - pos)) := by
  intro h
  have hs : h.Shaped := shaped_after deeds
  refine ⟨?_, fun id pos count => ⟨hs.part_cases id pos count, hs.partOrCopy_cases id pos count⟩,
    hs.bytes_cases, fun id => ⟨hs.bytesWithin_two id, hs.run_releaseWithin_two id⟩, ?_⟩
  · intro id start length child hb
    obtain ⟨-, hpos, -, hinside⟩ := hs id _ hb
    refine ⟨hpos, fun c hc => ?_⟩
    obtain ⟨hflat, hbounds⟩ := hinside c hc
    exact ⟨Body.kind_of_flat ((hs child c hc).sound_of_flat hflat) hflat, hbounds⟩
  · intro hu id b hb
    have howned : Owned h (after deeds).held := hu.sane.owned
    obtain ⟨c, -, hc, -⟩ := Heap.body?_base howned hb
    have hbase : h.body? (h.base id) ≠ none := by simp [hc]
    refine ⟨fun child hchild => ?_, ?_, fun pos count fault h' hrun => ?_⟩
    · obtain ⟨n, hn, -⟩ := (howned.sound hb).child hchild
      exact ⟨n.body, Heap.body?_of_find? hn⟩
    · obtain ⟨data, -, hbytes, hlength⟩ := Heap.bytes_eq_ok howned hb
      exact ⟨data, hbytes, hlength⟩
    · have hpart := hs.part_cases id pos count
      have hcopy := hs.partOrCopy_cases id pos count
      rcases hrun with hrun | hrun
      · rw [Leaves, hrun] at hpart
        exact hpart.of_live hb hbase
      · rw [Leaves, hrun] at hcopy
        exact hcopy.of_live hb hbase

/-- A part of a view is a view over the same node. -/
example :
    let deeds : List (Deed Nat) := [.act (.ofBytes ⟨[1, 2, 3, 4, 5, 6], by decide⟩),
      .act (.part (.ref 0) 1 4), .act (.part (.ref 1) 1 2)]
    (after deeds).heap.body? ⟨3⟩ = some (.view 2 2 ⟨1⟩) := by decide

/-! ## Too many owners -/

def bufferAndView : List (Deed Nat) :=
  [.act (.ofBytes ⟨[4, 5], by decide⟩), .act (.part (.ref 0) 0 1)]

/-- With the view, the buffer has one owner more than there are words for its count, and then one
reference is given up. -/
def crowdAndDrop : List (Deed Nat) :=
  bufferAndView ++ List.replicate (RefCount.period - 1) (.act (.clone (.ref 0))) ++ [.act (.drop 0)]

theorem bodies_after_crowdAndDrop :
    (after crowdAndDrop).heap.body? ⟨2⟩ = some (.view 0 1 ⟨1⟩) ∧
      (after crowdAndDrop).heap.body? ⟨1⟩ = none ∧
      (after crowdAndDrop).heap.bytes ⟨2⟩ = .error .dangling := by
  have hp : (after bufferAndView).find? (.ref 0) = some ⟨1⟩ := by decide
  have hn : (after bufferAndView).heap.find? ⟨1⟩ = some ⟨.ofNat 2, .buffer 4 [4, 5]⟩ := by decide
  have hcount : 2 + (RefCount.period - 1) = 1 + RefCount.period := by decide
  rw [crowdAndDrop, after_concat, after_clones hp hn, hcount, RefCount.ofNat_add_period]
  exact ⟨by decide, by decide, by decide⟩

/-- **With so many owners, one of them is taken for the last: the buffer is destroyed, and the view
that is left cannot be read.** -/
theorem crowd_loses_child :
    let h := (after crowdAndDrop).heap
    (¬ ∀ id start length child, h.body? id = some (.view start length child) →
      ∃ c, h.body? child = some c ∧ (c.kind = .ok .buffer ∨ c.kind = .ok .external) ∧
        0 < length ∧ length < c.length ∧ start + length ≤ c.length) ∧
    ¬ ∀ id b, h.body? id = some b → ∃ data, h.bytes id = .ok data := by
  obtain ⟨hview, hgone, hbytes⟩ := bodies_after_crowdAndDrop
  refine ⟨fun hall => ?_, fun hall => ?_⟩
  · obtain ⟨c, hc, -⟩ := hall ⟨2⟩ 0 1 ⟨1⟩ hview
    rw [hgone] at hc
    cases hc
  · obtain ⟨data, hdata⟩ := hall ⟨2⟩ _ hview
    rw [hbytes] at hdata
    cases hdata

end Client
end RopeStore
