import Mathlib.Data.List.Basic
import RopeStore.Heap.Release
import RopeStore.Proofs.Heap.Create

/-!
# What giving up a reference leaves

* `Body.farewell?` : the notice with which a body goes;
* `Lost h h' gone` : exactly the nodes `gone` were destroyed on the way from `h` to `h'`, in that order,
  each of them once and with its notice;
* `leaves_release` : a release leaves right counts where counts were right, also where it faults;
  `ends_release` : it does not fault where no node has more owners than its count can hold.

The child of a view is no view, so a release destroys at most two nodes.
-/

namespace RopeStore
variable {ρ : Type}

/-- The notice with which a body goes. -/
def Body.farewell? : Body ρ → Option (Notice ρ)
  | .buffer tag _ => some (.freed (SizeClass.sizeFor tag))
  | .external bytes keeper => some (.returned bytes keeper)
  | _ => none

/-- The nodes in `gone` were destroyed, each of them once, and no other node lost or changed its
body. -/
structure Lost (h h' : Heap ρ) (gone : List NodeId) : Prop where
  size : h'.nodes.size = h.nodes.size
  nodup : gone.Nodup
  mortal : ∀ id ∈ gone, ∃ b, h.body? id = some b ∧ ¬ b.IsPermanent
  body : ∀ id, h'.body? id = if id ∈ gone then none else h.body? id
  views : ∀ id, h'.viewsOver id ≤ h.viewsOver id
  notices : h'.notices = h.notices ++ gone.filterMap fun id => (h.body? id).bind Body.farewell?

namespace Lost
variable {h h' h'' : Heap ρ} {id : NodeId} {n : Node ρ}

theorem refl (h : Heap ρ) : Lost h h [] where
  size := rfl
  nodup := List.nodup_nil
  mortal := by
    intro j hj
    cases hj
  body := fun _ => (if_neg List.not_mem_nil).symm
  views := fun _ => Nat.le_refl _
  notices := (List.append_nil _).symm

theorem putRefs (hn : h.find? id = some n) (refs : RefCount) :
    Lost h (h.put id { n with refs }) [] where
  size := Arena.size_set ..
  nodup := List.nodup_nil
  mortal := by
    intro j hj
    cases hj
  body := by
    intro j
    rw [Heap.body?_put_refs hn, if_neg List.not_mem_nil]
  views := fun j => Nat.le_of_eq (Heap.viewsOver_put (n := { n with refs }) hn rfl j)
  notices := (List.append_nil _).symm

theorem one (hn : h.find? id = some n) (hmortal : ¬ n.body.IsPermanent) :
    Lost h ((h.tell n.body.farewell?.toList).without id) [id] where
  size := Arena.size_erase ..
  nodup := List.pairwise_singleton _ id
  mortal := by
    intro j hj
    rw [List.mem_singleton.1 hj]
    exact ⟨_, Heap.body?_of_find? hn, hmortal⟩
  body := by
    intro j
    rw [Heap.body?_without]
    simp only [List.mem_singleton]
    rfl
  views := fun j =>
    Nat.le_of_add_right_le (Nat.le_of_eq (Heap.viewsOver_without (h := h.tell _) hn j))
  notices := by
    have hb : (h.body? id).bind Body.farewell? = n.body.farewell? := by
      rw [Heap.body?_of_find? hn]
      rfl
    rw [List.filterMap_cons, List.filterMap_nil, hb]
    show h.notices ++ n.body.farewell?.toList = _
    cases n.body.farewell? <;> rfl

theorem trans {gone gone' : List NodeId} (h₁ : Lost h h' gone) (h₂ : Lost h' h'' gone') :
    Lost h h'' (gone ++ gone') := by
  have hlive : ∀ j ∈ gone', j ∉ gone ∧ h'.body? j = h.body? j := by
    intro j hj
    obtain ⟨b, hb, -⟩ := h₂.mortal j hj
    have hbody := h₁.body j
    by_cases hmem : j ∈ gone
    · rw [if_pos hmem, hb] at hbody
      cases hbody
    · exact ⟨hmem, by rw [hbody, if_neg hmem]⟩
  constructor
  case size => rw [h₂.size, h₁.size]
  case nodup =>
    refine List.nodup_append.2 ⟨h₁.nodup, h₂.nodup, ?_⟩
    rintro j hj _ hk rfl
    exact (hlive j hk).1 hj
  case mortal =>
    intro j hj
    rcases List.mem_append.1 hj with hj | hj
    · exact h₁.mortal j hj
    · obtain ⟨b, hb, hmortal⟩ := h₂.mortal j hj
      exact ⟨b, by rw [← (hlive j hj).2, hb], hmortal⟩
  case body =>
    intro j
    rw [h₂.body, h₁.body]
    simp only [List.mem_append]
    by_cases hj : j ∈ gone' <;> by_cases hk : j ∈ gone <;> simp [hj, hk]
  case views => exact fun j => Nat.le_trans (h₂.views j) (h₁.views j)
  case notices =>
    rw [h₂.notices, h₁.notices, List.filterMap_append, List.append_assoc]
    congr 2
    apply List.filterMap_congr
    intro j hj
    rw [(hlive j hj).2]

/-- What is left is still legible for as many owners or fewer. -/
theorem legible {gone held held' : List NodeId} (hlost : Lost h h' gone) (hl : Legible h held)
    (hle : ∀ j, held'.count j ≤ held.count j) : Legible h' held' :=
  fun j => Nat.le_trans (Nat.add_le_add (hle j) (hlost.views j)) (hl j)

end Lost

namespace Heap
variable {h : Heap ρ} {held : List NodeId} {id : NodeId} {n : Node ρ}

/-- Giving up one reference in the count answers whether an owner is left. It faults only where the
count was too high for an answer. -/
theorem run_onCount_decrement (ho : Owned h (id :: held)) (hl : Legible h (id :: held))
    (hn : h.find? id = some n) :
    (∃ left, (onCount id RefCount.decrementExpectHigh).run h =
        .ok left (h.put id { n with refs := ⟨n.refs.packed - RefCount.unit⟩ }) ∧
      (left = true ↔ n.refs.isImmortal = true ∨ 0 < held.count id + h.viewsOver id)) ∨
    ∃ fault, (onCount id RefCount.decrementExpectHigh).run h =
        .error fault (h.put id { n with refs := ⟨n.refs.packed - RefCount.unit⟩ }) ∧
      0 < held.count id + h.viewsOver id ∧ ¬ Few h (id :: held) := by
  have hcounts := ho.counts hn
  have hlegible := hl id
  rw [List.count_cons_self] at hcounts hlegible
  cases hcounts with
  | immortal hrefs hbody =>
    have hrun := RefCount.run_decrementExpectHigh_of_isImmortal hrefs
    exact Or.inl ⟨true, run_onCount hn hrun, by simp [hrefs]⟩
  | mortal hrefs hpos hbody =>
    have howners : held.count id + 1 + h.viewsOver id = held.count id + h.viewsOver id + 1 := by
      omega
    rw [howners] at hrefs hlegible
    have hruns := RefCount.run_decrementExpectHigh_ofNat_of_le hlegible
    rw [RefCount.ofNat_eq_pred (held.count id + h.viewsOver id), ← hrefs] at hruns
    rcases hruns with hrun | ⟨hhigh, hrun⟩
    · refine Or.inl ⟨_, run_onCount hn hrun, ?_⟩
      rw [hrefs, RefCount.isImmortal_ofNat]
      simp only [decide_eq_true_eq, Bool.false_eq_true, false_or]
      omega
    · refine Or.inr ⟨_, run_onCount_of_run_eq_error hn hrun, ?_, fun hf => ?_⟩
      · have hbound := RefCount.bound_eq
        omega
      · have hfew := hf id
        rw [List.count_cons_self] at hfew
        omega

/-- A destroyed node was counted down before it goes, which nobody can see any more. -/
theorem without_put (h : Heap ρ) (id : NodeId) (n : Node ρ) :
    (h.put id n).without id = h.without id := by
  simp only [put, without, Arena.set, Arena.erase]
  congr 2
  refine Array.ext_getElem? fun i => ?_
  simp only [Array.getElem?_setIfInBounds, Array.size_setIfInBounds]
  split <;> rfl

/-- The node whose count was taken down to none is mortal, and what it held is outside again. -/
theorem owned_last (ho : Owned h (id :: held)) (hn : h.find? id = some n)
    (hlast : ¬ (n.refs.isImmortal = true ∨ 0 < held.count id + h.viewsOver id)) :
    ¬ n.body.IsPermanent ∧
      Owned ((h.tell n.body.farewell?.toList).without id) (n.body.child?.toList ++ held) := by
  have hmortal : n.refs.isImmortal = false := by
    cases himm : n.refs.isImmortal with
    | true => exact absurd (Or.inl himm) hlast
    | false => rfl
  constructor
  · cases ho.counts hn with
    | immortal hrefs hbody =>
      rw [hrefs] at hmortal
      cases hmortal
    | mortal hrefs hpos hbody => exact hbody
  · exact (ho.tell n.body.farewell?.toList).without hn hmortal
      (Nat.eq_zero_of_not_pos fun hpos => hlast (Or.inr hpos))

theorem tell_nil (h : Heap ρ) : h.tell [] = h := by
  show { h with notices := h.notices ++ [] } = h
  rw [List.append_nil]

/-- No node has more owners after a view gave its reference to its child away. -/
theorem owners_without_le {child : NodeId} (hn : h.find? id = some n)
    (hchild : n.body.child? = some child) (held : List NodeId) (j : NodeId) :
    (child :: held).count j + (h.without id).viewsOver j ≤
      (id :: held).count j + h.viewsOver j := by
  have hview := viewsOver_without hn j
  rw [hchild] at hview
  rw [List.count_cons, List.count_cons]
  simp only [Option.some.injEq] at hview
  simp only [beq_iff_eq]
  omega

/-- A release that may follow as many nodes as the node has below it. -/
theorem leaves_releaseWithin {depth : Nat} (ho : Owned h (id :: held))
    (hl : Legible h (id :: held)) (hn : h.find? id = some n)
    (hdepth : n.body.child?.toList.length < depth) :
    Leaves (releaseWithin depth id) h (fun _ h' => (∃ gone, Lost h h' gone) ∧ Owned h' held)
      fun _ h' => ((∃ gone, Lost h h' gone) ∧ Owned h' held) ∧ ¬ Few h (id :: held) := by
  induction depth generalizing h id n with
  | zero => exact absurd hdepth (Nat.not_lt_zero _)
  | succ depth ih =>
    rcases run_onCount_decrement ho hl hn with ⟨left, hrun, hleft⟩ | ⟨fault, hrun, hpos, hmany⟩
    case inr =>
      exact leaves_of_run_eq_error (run_bind_of_run_eq_error hrun)
        ⟨⟨⟨[], Lost.putRefs hn _⟩, ho.giveUp hn (Or.inr hpos)⟩, hmany⟩
    rw [releaseWithin, leaves_bind_of_run_eq_ok hrun]
    cases left with
    | true => exact ⟨⟨[], Lost.putRefs hn _⟩, ho.giveUp hn (hleft.1 rfl)⟩
    | false =>
      obtain ⟨hmortal, howned⟩ := owned_last ho hn (by rw [← hleft]; exact Bool.false_ne_true)
      have hlost := Lost.one hn hmortal
      have hsound := ho.sound_of_find? hn
      have hbody := (body?_put_refs hn ⟨n.refs.packed - RefCount.unit⟩ id).trans
        (body?_of_find? hn)
      obtain ⟨refs, body⟩ := n
      show Leaves (ask _ >>= _) _ _ _
      rw [leaves_bind_of_run_eq_ok (run_ask_body hbody)]
      rw [← without_put _ id ⟨⟨refs.packed - RefCount.unit⟩, body⟩] at hlost howned
      cases body with
      | buffer tag bytes =>
        have hreq : require .bufferTag (SizeClass.isBuffer tag) = .ok () := if_pos hsound.1
        refine leaves_of_run_eq_ok (a := ()) ?_ ⟨⟨_, hlost⟩, howned⟩
        rw [run_bind_of_run_eq_ok (run_note _ _),
          run_bind_of_run_eq_ok (run_attempt_of_eq_ok hreq)]
        rfl
      | external bytes keeper =>
        cases keeper with
        | permanent => exact absurd ⟨bytes, rfl⟩ hmortal
        | copied => exact leaves_of_run_eq_ok (a := ()) rfl ⟨⟨_, hlost⟩, howned⟩
        | lent owner => exact leaves_of_run_eq_ok (a := ()) rfl ⟨⟨_, hlost⟩, howned⟩
      | view start length child =>
        -- a view leaves no notice, and its child has no child, so one more node is followed
        obtain ⟨c, hc, hflat⟩ := hsound.child rfl
        have hne : child ≠ id := by
          rintro rfl
          rw [hn] at hc
          cases hc
          cases hflat
        have hfind : (h.without id).find? child = some c := by
          rw [find?_without, if_neg hne, hc]
        have hfewer := owners_without_le hn rfl held
        rw [← without_put h id ⟨⟨refs.packed - RefCount.unit⟩, _⟩] at hfind hfewer
        rw [show (Body.view start length child : Body ρ).farewell? = none from rfl,
          Option.toList_none, tell_nil] at hlost howned
        have hlen : c.body.child?.toList.length < depth := by
          rw [hflat]
          exact Nat.lt_of_succ_lt_succ hdepth
        have hlegible : Legible _ (child :: held) := fun j => Nat.le_trans (hfewer j) (hl j)
        refine (leaves_bind_of_run_eq_ok (run_discard _ _)).2
          ((ih howned hlegible hfind hlen).mono ?_ ?_)
        · rintro _ h' ⟨⟨gone, hgone⟩, howned'⟩
          exact ⟨⟨_, hlost.trans hgone⟩, howned'⟩
        · rintro _ h' ⟨⟨⟨gone, hgone⟩, howned'⟩, hmany⟩
          exact ⟨⟨⟨_, hlost.trans hgone⟩, howned'⟩, fun hf =>
            hmany fun j => Nat.lt_of_le_of_lt (hfewer j) (hf j)⟩
      | malformed tag length => exact hsound.elim

/-- **A reference that is given up in a heap with right counts leaves right counts, and destroys
nodes at most once, each with its notice.** So does one whose node had more owners than its count can
hold; that is the only fault. -/
theorem leaves_release (ho : Owned h (id :: held)) (hl : Legible h (id :: held)) :
    Leaves (release id) h (fun _ h' => (∃ gone, Lost h h' gone) ∧ Owned h' held)
      fun _ h' => ((∃ gone, Lost h h' gone) ∧ Owned h' held) ∧ ¬ Few h (id :: held) := by
  obtain ⟨n, hn⟩ := ho.live List.mem_cons_self
  apply leaves_releaseWithin ho hl hn
  have hlt := lt_size_of_find? hn
  cases hchild : n.body.child? with
  | none =>
    show 0 < h.nodes.size
    omega
  | some child =>
    obtain ⟨c, hc, hflat⟩ := (ho.sound_of_find? hn).child hchild
    have hlt' := lt_size_of_find? hc
    have hdiff : child.index ≠ id.index := by
      intro heq
      rw [index_inj.1 heq, hn] at hc
      cases hc
      rw [hchild] at hflat
      cases hflat
    show 1 < h.nodes.size
    omega

theorem ends_release (ho : Owned h (id :: held)) (hf : Few h (id :: held)) :
    Ends (release id) h fun _ h' => (∃ gone, Lost h h' gone) ∧ Owned h' held :=
  (leaves_release ho hf.legible).mono (fun _ _ hafter => hafter) fun _ _ hafter => hafter.2 hf

end Heap
end RopeStore
