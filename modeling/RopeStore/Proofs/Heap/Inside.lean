import Mathlib.Data.List.Basic
import RopeStore.Proofs.Heap.Release
import RopeStore.Proofs.Heap.Shape

/-!
# Reading and cutting in a shaped heap

What a shaped heap is good for. Only what is gone can stand in the way.

* `bytesWithin_two`, `run_releaseWithin_two` : to read a node, and to give one up, two nodes are
  followed at most: the node and its child;
* `Shaped.intact` : a node is intact if what holds its bytes is there; so `bytes_cases` : it is read with
  as many bytes as its length says, or something is gone;
* `Refusal h id pos count fault` : why there is no such part; `part_cases`, `partOrCopy_cases` : a part
  is taken, or refused for one of these reasons.
-/

namespace RopeStore
variable {ρ : Type} {h : Heap ρ} {id : NodeId} {n : Node ρ} {b : Body ρ}

namespace Heap

theorem base_of_dead (hdead : h.body? id = none) : h.base id = id := by
  rw [base, hdead]
  rfl

/-! ## Reading -/

theorem bytesWithin_of_dead (hdead : h.body? id = none) (depth : Nat) :
    h.bytesWithin depth id = .error .dangling := by
  cases depth with
  | zero => rfl
  | succ depth =>
    rw [bytesWithin, body_eq_error hdead]
    rfl

theorem bytesWithin_of_flat (hb : h.body? id = some b) (hflat : b.child? = none) (depth depth' : Nat) :
    h.bytesWithin (depth + 1) id = h.bytesWithin (depth' + 1) id := by
  rw [bytesWithin, bytesWithin, body_eq_ok hb]
  cases b with
  | view start length child => cases hflat
  | buffer tag bytes => rfl
  | external bytes keeper => rfl
  | malformed tag length => rfl

end Heap

namespace Heap.Shaped

/-- The child of a view has no child, and is another node, so the heap has two at least. -/
theorem child (hs : h.Shaped) {start length : Nat} {child : NodeId}
    (hb : h.body? id = some (.view start length child)) {c : Body ρ} (hc : h.body? child = some c) :
    c.child? = none ∧ child ≠ id ∧ 2 ≤ h.nodes.size := by
  obtain ⟨-, -, -, hinside⟩ := hs id _ hb
  have hflat := (hinside c hc).1
  have hne : child ≠ id := by
    rintro rfl
    rw [hb] at hc
    cases hc
    cases hflat
  have hindex : child.index ≠ id.index := fun heq => hne (index_inj.1 heq)
  have := lt_size_of_body? hb
  have := lt_size_of_body? hc
  exact ⟨hflat, hne, by omega⟩

/-- **A node is read by following two nodes at most.** -/
theorem bytesWithin_two (hs : h.Shaped) (id : NodeId) : h.bytesWithin 2 id = h.bytes id := by
  rw [bytes]
  cases hb : h.body? id with
  | none => rw [bytesWithin_of_dead hb, bytesWithin_of_dead hb]
  | some b =>
    obtain ⟨depth, hdepth⟩ : ∃ depth, h.nodes.size = depth + 1 :=
      Nat.exists_eq_succ_of_ne_zero (by have := lt_size_of_body? hb; omega)
    rw [hdepth]
    cases hchild : b.child? with
    | none => exact bytesWithin_of_flat hb hchild 1 depth
    | some child =>
      obtain ⟨start, length, rfl⟩ := Body.exists_view hchild
      rw [bytesWithin_of_view hb, bytesWithin_of_view hb]
      cases hc : h.body? child with
      | none => rw [bytesWithin_of_dead hc, bytesWithin_of_dead hc]
      | some c =>
        obtain ⟨hflat, -, htwo⟩ := hs.child hb hc
        obtain ⟨depth, rfl⟩ : ∃ d, depth = d + 1 := Nat.exists_eq_succ_of_ne_zero (by omega)
        rw [bytesWithin_of_flat hc hflat 0 depth]

theorem intact (hs : h.Shaped) (hb : h.body? id = some b) (hbase : h.body? (h.base id) ≠ none) :
    h.Intact id b := by
  have hfits := hs id b hb
  cases hchild : b.child? with
  | none =>
    refine ⟨hb, hfits.sound_of_flat hchild, fun c hc => ?_⟩
    rw [base_of_flat hb hchild, hb] at hc
    cases hc
    exact hfits.sound_of_flat hchild
  | some child =>
    obtain ⟨start, length, rfl⟩ := Body.exists_view hchild
    obtain ⟨-, hpos, -, hinside⟩ := hfits
    rw [base_of_view hb] at hbase
    obtain ⟨c, hc⟩ := Option.ne_none_iff_exists'.1 hbase
    obtain ⟨hflat, hshort, hend⟩ := hinside c hc
    refine ⟨hb, ⟨hpos, c, hc, hflat, hshort, hend⟩, fun d hd => ?_⟩
    rw [base_of_view hb, hc] at hd
    cases hd
    exact (hs child c hc).sound_of_flat hflat

theorem bytes_of_gone (hs : h.Shaped) (hbase : h.body? (h.base id) = none) :
    h.bytes id = .error .dangling := by
  cases hb : h.body? id with
  | none => exact bytesWithin_of_dead hb _
  | some b =>
    cases hchild : b.child? with
    | none => simp [base_of_flat hb hchild, hb] at hbase
    | some child =>
      obtain ⟨start, length, rfl⟩ := Body.exists_view hchild
      rw [base_of_view hb] at hbase
      rw [← hs.bytesWithin_two, bytesWithin_of_view hb, bytesWithin_of_dead hbase]
      rfl

/-- **A node that is read has as many bytes as its length says, and it can be read unless it or its
child is gone.** -/
theorem bytes_cases (hs : h.Shaped) (id : NodeId) :
    (h.bytes id = .error .dangling ∧ h.body? (h.base id) = none) ∨
      ∃ b data, h.body? id = some b ∧ h.bytes id = .ok data ∧ data.length = b.length := by
  by_cases hbase : h.body? (h.base id) = none
  · exact Or.inl ⟨hs.bytes_of_gone hbase, hbase⟩
  cases hb : h.body? id with
  | none =>
    rw [base_of_dead hb] at hbase
    exact absurd hb hbase
  | some b =>
    obtain ⟨data, -, hbytes, hlen⟩ := (hs.intact hb hbase).bytes_eq_ok
    exact Or.inr ⟨b, data, rfl, hbytes, hlen⟩

end Heap.Shaped

/-! ## Parts -/

/-- Why there is no part of `count` bytes at `pos` of node `id`. -/
inductive Refusal (h : Heap ρ) (id : NodeId) (pos count : Nat) : Fault → Prop
  | gone (hbase : h.body? (h.base id) = none) : Refusal h id pos count .dangling
  | outside (b : Body ρ) (hb : h.body? id = some b)
      (hbad : ¬ (0 < count ∧ pos < b.length ∧ count ≤ b.length - pos)) :
      Refusal h id pos count (.badPart count pos b.length)

/-- Where nothing is gone, only what is no part is refused. -/
theorem Refusal.of_live {pos count : Nat} {fault : Fault} (hr : Refusal h id pos count fault)
    (hb : h.body? id = some b) (hbase : h.body? (h.base id) ≠ none) :
    fault = .badPart count pos b.length ∧ ¬ (0 < count ∧ pos < b.length ∧ count ≤ b.length - pos) := by
  cases hr with
  | gone hgone => exact absurd hgone hbase
  | outside b' hb' hbad =>
    rw [hb] at hb'
    cases hb'
    exact ⟨rfl, hbad⟩

namespace Heap.Shaped

/-- **A part is taken, or refused for a reason.** No view over a view is asked for, no assertion fails
and no number leaves its range. -/
theorem part_cases (hs : h.Shaped) (id : NodeId) (pos count : Nat) :
    Leaves (part id pos count) h (fun _ _ => True) fun fault _ => Refusal h id pos count fault := by
  cases hb : h.body? id with
  | none =>
    exact leaves_of_run_eq_error
      (run_bind_of_run_eq_error (run_ask_of_eq_error rfl (body_eq_error hb)))
      (.gone (by rw [base_of_dead hb, hb]))
  | some b =>
    by_cases hgood : 0 < count ∧ pos < b.length ∧ count ≤ b.length - pos
    case neg => exact leaves_of_run_eq_error (run_part_eq_error hb hgood) (.outside b hb hgood)
    by_cases hall : count = b.length
    · obtain ⟨n, hn, rfl⟩ := body?_eq_some_iff.1 hb
      exact leaves_of_run_eq_ok (run_part_of_all hn hgood hall) trivial
    by_cases hbase : h.body? (h.base id) = none
    case neg =>
      obtain ⟨c, -, -, hrun⟩ := (hs.intact hb hbase).run_part_of_proper hgood hall
      exact leaves_of_run_eq_ok hrun trivial
    cases hchild : b.child? with
    | none => simp [base_of_flat hb hchild, hb] at hbase
    | some child =>
      -- the part of a view would be cut out of the child of the view, and that is gone
      obtain ⟨start, length, rfl⟩ := Body.exists_view hchild
      obtain ⟨-, -, hword, -⟩ := hs id _ hb
      have hlt : pos < length := hgood.2.1
      have hadd : checkedAdd start pos = .ok (start + pos) := if_pos (by omega)
      rw [part, leaves_bind_of_run_eq_ok (run_ask_body hb),
        leaves_bind_of_run_eq_ok (run_attempt_of_eq_ok (checkPart_eq_ok_iff.2 hgood)), if_neg hall]
      refine (leaves_bind_of_run_eq_ok (run_attempt_of_eq_ok hadd)).2 ?_
      exact leaves_of_run_eq_error
        (run_bind_of_run_eq_error (run_ask_of_eq_error rfl
          (body_eq_error (base_of_view hb ▸ hbase)))) (.gone hbase)

theorem partOrCopy_cases (hs : h.Shaped) (id : NodeId) (pos count : Nat) :
    Leaves (partOrCopy id pos count) h (fun _ _ => True)
      fun fault _ => Refusal h id pos count fault := by
  cases hb : h.body? id with
  | none =>
    have hlength : h.length id = .error .dangling := by
      rw [length, node_eq_error (Option.map_eq_none_iff.1 hb)]
      rfl
    exact leaves_of_run_eq_error
      (run_bind_of_run_eq_error (run_ask_of_eq_error rfl hlength)) (.gone (by rw [base_of_dead hb, hb]))
  | some b =>
    by_cases hmany : count = b.length ∨ copyLimit < count
    · rw [Leaves, run_partOrCopy_of_part hb hmany]
      exact hs.part_cases id pos count
    by_cases hgood : 0 < count ∧ pos < b.length ∧ count ≤ b.length - pos
    case neg => exact leaves_of_run_eq_error (run_partOrCopy_eq_error hb hgood) (.outside b hb hgood)
    by_cases hbase : h.body? (h.base id) = none
    case neg =>
      obtain ⟨_, _, -, -, -, hrun⟩ := (hs.intact hb hbase).run_partOrCopy_of_copy hgood hmany
      exact leaves_of_run_eq_ok hrun trivial
    rw [partOrCopy, leaves_bind_of_run_eq_ok (run_ask_of_eq_ok (length_eq_ok hb)), if_neg hmany,
      leaves_bind_of_run_eq_ok (run_attempt_of_eq_ok (checkPart_eq_ok_iff.2 hgood))]
    refine leaves_of_run_eq_error
      (run_bind_of_run_eq_error (run_ask_of_eq_error rfl ?_)) (.gone hbase)
    rw [hs.bytes_of_gone hbase]
    rfl

end Heap.Shaped

/-! ## Giving up -/

namespace Heap

theorem run_releaseWithin_of_dead (hdead : h.body? id = none) (depth : Nat) :
    (releaseWithin depth id).run h = .error .dangling h := by
  cases depth with
  | zero => rfl
  | succ depth =>
    exact run_bind_of_run_eq_error
      (run_bind_of_run_eq_error (run_ask_node_of_dead (Option.map_eq_none_iff.1 hdead)))

/-- How many more nodes may be followed matters only for the child. -/
theorem run_releaseWithin_congr (hb : h.body? id = some b) {depth depth' : Nat}
    (hbelow : ∀ child, b.child? = some child →
      (releaseWithin depth child).run (h.without id) =
        (releaseWithin depth' child).run (h.without id)) :
    (releaseWithin (depth + 1) id).run h = (releaseWithin (depth' + 1) id).run h := by
  obtain ⟨⟨refs, body⟩, hn, rfl⟩ := body?_eq_some_iff.1 hb
  rw [releaseWithin, releaseWithin]
  cases hop : RefCount.decrementExpectHigh.run refs with
  | error fault refs' =>
    have hrun := run_onCount_of_run_eq_error hn hop
    rw [run_bind_of_run_eq_error hrun, run_bind_of_run_eq_error hrun]
  | ok left refs' =>
    have hrun := run_onCount hn hop
    rw [run_bind_of_run_eq_ok hrun, run_bind_of_run_eq_ok hrun]
    cases left with
    | true => rfl
    | false =>
      have hread := run_ask_body ((body?_put_refs hn refs' id).trans hb)
      show (ask (·.body id) >>= _ : HeapM ρ Unit).run _ = (ask (·.body id) >>= _ : HeapM ρ Unit).run _
      rw [run_bind_of_run_eq_ok hread, run_bind_of_run_eq_ok hread]
      cases body with
      | view start length child =>
        have hgone := run_discard (h.put id ⟨refs', .view start length child⟩) id
        show (discard id >>= _ : HeapM ρ Unit).run _ = (discard id >>= _ : HeapM ρ Unit).run _
        rw [run_bind_of_run_eq_ok hgone, run_bind_of_run_eq_ok hgone]
        have hsame := hbelow child rfl
        rwa [← without_put h id ⟨refs', .view start length child⟩] at hsame
      | buffer tag bytes => rfl
      | external bytes keeper => cases keeper <;> rfl
      | malformed tag length => rfl

theorem run_releaseWithin_of_flat (hb : h.body? id = some b) (hflat : b.child? = none)
    (depth depth' : Nat) :
    (releaseWithin (depth + 1) id).run h = (releaseWithin (depth' + 1) id).run h :=
  run_releaseWithin_congr hb fun child hchild => by
    rw [hflat] at hchild
    cases hchild

/-- **A node is given up by following two nodes at most.** -/
theorem Shaped.run_releaseWithin_two (hs : h.Shaped) (id : NodeId) :
    (releaseWithin 2 id).run h = (release id).run h := by
  show _ = (releaseWithin h.nodes.size id).run h
  cases hb : h.body? id with
  | none => rw [run_releaseWithin_of_dead hb, run_releaseWithin_of_dead hb]
  | some b =>
    obtain ⟨depth, hdepth⟩ : ∃ depth, h.nodes.size = depth + 1 :=
      Nat.exists_eq_succ_of_ne_zero (by have := lt_size_of_body? hb; omega)
    rw [hdepth]
    refine run_releaseWithin_congr hb fun child hchild => ?_
    obtain ⟨start, length, rfl⟩ := Body.exists_view hchild
    cases hc : (h.without id).body? child with
    | none => rw [run_releaseWithin_of_dead hc, run_releaseWithin_of_dead hc]
    | some c =>
      have hlive := hc
      rw [body?_without] at hlive
      split at hlive
      · cases hlive
      · obtain ⟨hflat, -, htwo⟩ := hs.child hb hlive
        obtain ⟨depth, rfl⟩ : ∃ d, depth = d + 1 := Nat.exists_eq_succ_of_ne_zero (by omega)
        exact run_releaseWithin_of_flat hc hflat 0 depth

end Heap
end RopeStore
