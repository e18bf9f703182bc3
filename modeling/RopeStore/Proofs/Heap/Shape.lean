import Mathlib.Data.List.Basic
import RopeStore.Proofs.Heap.Content
import RopeStore.Proofs.Heap.Stable

/-!
# The shape of a heap

What holds of the bodies of a heap whatever its counts are: every view lies properly inside its child,
which is no view, if that is still there. Nothing is asked of the owners of a node, so this also holds
where counts have wrapped and a node went too early.

* `Body.Fits h b` : the body `b` may stand in the heap `h`; `Heap.Shaped h` : all bodies of `h` do;
* `Shaped.push`, `Shaped.putRefs`, `Shaped.without`, `Shaped.tell`, `Shaped.refill` : the changes of a
  heap;
* `stable_shaped`, `grows_shaped`, `shaped_append`, `shaped_newView` : so every operation on nodes keeps
  a heap shaped, also where it faults.
-/

namespace RopeStore
variable {ρ α : Type}

/-- A body that may stand in the heap `h`. A view lies properly inside its child, which is no view; the
child may be gone, but it was made before. -/
def Body.Fits (h : Heap ρ) : Body ρ → Prop
  | .buffer tag bytes => SizeClass.isBuffer tag = true ∧
    bytes.length + SizeClass.headerSize ≤ SizeClass.sizeFor tag
  | .external bytes _ => bytes.length < wordBound
  | .view start length child => child.index < h.nodes.size ∧ 0 < length ∧
    start + length < wordBound ∧ ∀ c, h.body? child = some c →
      c.child? = none ∧ length < c.length ∧ start + length ≤ c.length
  | .malformed .. => False

/-- All bodies of a heap may stand there. -/
def Heap.Shaped (h : Heap ρ) : Prop := ∀ id b, h.body? id = some b → b.Fits h

variable {h h' : Heap ρ} {id : NodeId} {n : Node ρ} {b : Body ρ}

theorem Body.Fits.sound_of_flat (hb : b.Fits h) (hflat : b.child? = none) : b.Sound h := by
  cases b with
  | buffer tag bytes => exact hb
  | external bytes keeper => exact hb
  | view start length child => cases hflat
  | malformed tag length => exact hb.elim

theorem Body.Sound.fits_of_flat (hb : b.Sound h) (hflat : b.child? = none) : b.Fits h' := by
  cases b with
  | buffer tag bytes => exact hb
  | external bytes keeper => exact hb
  | view start length child => cases hflat
  | malformed tag length => exact hb.elim

theorem Body.Fits.mono (hb : b.Fits h) (hsize : h.nodes.size ≤ h'.nodes.size)
    (hbelow : ∀ child, child.index < h.nodes.size → ∀ c', h'.body? child = some c' →
      ∃ c, h.body? child = some c ∧ c'.child? = c.child? ∧ c.length ≤ c'.length) : b.Fits h' := by
  cases b with
  | buffer tag bytes => exact hb
  | external bytes keeper => exact hb
  | malformed tag length => exact hb
  | view start length child =>
    obtain ⟨hchild, hpos, hword, hinside⟩ := hb
    refine ⟨Nat.lt_of_lt_of_le hchild hsize, hpos, hword, fun c' hc' => ?_⟩
    obtain ⟨c, hc, hsame, hlength⟩ := hbelow child hchild c' hc'
    obtain ⟨hflat, hproper, hend⟩ := hinside c hc
    exact ⟨hsame.trans hflat, by omega, by omega⟩

namespace Heap

/-! ## Changes of a heap -/

namespace Shaped

theorem push (hs : h.Shaped) (hn : n.body.Fits h) : (h.push n).Shaped := by
  have hmono : ∀ b : Body ρ, b.Fits h → b.Fits (h.push n) := fun b hb => by
    refine hb.mono ?_ fun child hchild c' hc' => ⟨c', ?_, rfl, Nat.le_refl _⟩
    · rw [size_push]
      exact Nat.le_succ _
    · rw [body?_push, if_neg] at hc'
      · exact hc'
      · rintro rfl
        exact Nat.lt_irrefl _ hchild
  intro id b hb
  rw [body?_push] at hb
  split at hb
  · cases hb
    exact hmono _ hn
  · exact hmono b (hs id b hb)

/-- A heap in which nothing is new, and what there is has the body that it had. -/
theorem of_body? (hs : h.Shaped) (hsize : h.nodes.size ≤ h'.nodes.size)
    (hbody : ∀ id b, h'.body? id = some b → h.body? id = some b) : h'.Shaped := fun id b hb =>
  (hs id b (hbody id b hb)).mono hsize fun child _ c' hc' =>
    ⟨c', hbody child c' hc', rfl, Nat.le_refl _⟩

theorem putRefs (hs : h.Shaped) (hn : h.find? id = some n) (refs : RefCount) :
    (h.put id { n with refs }).Shaped :=
  hs.of_body? (Nat.le_of_eq (Arena.size_set ..).symm) fun j b hb => by
    rwa [body?_put_refs hn] at hb

theorem without (hs : h.Shaped) (id : NodeId) : (h.without id).Shaped :=
  hs.of_body? (Nat.le_of_eq (Arena.size_erase ..).symm) fun j b hb => by
    rw [body?_without] at hb
    split at hb
    · cases hb
    · exact hb

theorem tell (hs : h.Shaped) (ns : List (Notice ρ)) : (h.tell ns).Shaped :=
  hs.of_body? (Nat.le_refl _) fun _ _ hb => hb

theorem refill (hs : h.Shaped) (hn : h.find? id = some n) {tag : UInt8} {old bytes : List UInt8}
    (hbody : n.body = .buffer tag old) (hlength : old.length ≤ bytes.length)
    (hfits : (Body.buffer tag bytes : Body ρ).Fits h) :
    (h.put id { n with body := .buffer tag bytes }).Shaped := by
  have hmono : ∀ b : Body ρ, b.Fits h → b.Fits (h.put id { n with body := .buffer tag bytes }) := by
    refine fun b hb => hb.mono (Nat.le_of_eq (Arena.size_set ..).symm) fun child _ c' hc' => ?_
    rw [body?_put hn] at hc'
    split at hc'
    · cases hc'
      refine ⟨n.body, ?_, by rw [hbody]; rfl, by rw [hbody]; exact hlength⟩
      subst child
      exact body?_of_find? hn
    · exact ⟨c', hc', rfl, Nat.le_refl _⟩
  intro j b hb
  rw [body?_put hn] at hb
  split at hb
  · cases hb
    exact hfits
  · exact hmono b (hs j b hb)

end Shaped

theorem shaped_initial : (Heap.initial : Heap ρ).Shaped := by
  intro id b hb
  obtain ⟨n, hn, rfl⟩ := body?_eq_some_iff.1 hb
  rw [(find?_initial hn).2]
  exact (by decide : 0 < wordBound)

/-! ## Operations -/

theorem stable_shaped : Stable (Shaped : Heap ρ → Prop) where
  tell ns hs := hs.tell ns
  putRefs hn refs _ hs := hs.putRefs hn refs
  without _ _ hs := hs.without _

theorem grows_shaped : Grows (Shaped : Heap ρ → Prop) := by
  intro h b data hb hs
  exact hs.push ((hb.sound h).fits_of_flat (Body.child?_of_stored? hb.stored))

theorem shaped_newStatic {bytes : List UInt8} (hlen : bytes.length < wordBound) :
    Preserves (Shaped : Heap ρ → Prop) (newStatic bytes) := fun _ hs =>
  hs.push (show (Body.external bytes .permanent : Body ρ).Fits _ from hlen)

theorem shaped_append (id : NodeId) (data : List UInt8) :
    Preserves (Shaped : Heap ρ → Prop) (append id data) := by
  intro h hs
  cases hfind : h.find? id with
  | none => exact leaves_of_run_eq_error (run_bind_of_run_eq_error (run_ask_node_of_dead hfind)) hs
  | some n =>
    have hbelow := hs id n.body (body?_of_find? hfind)
    rcases append_cases hfind (fun tag bytes hbody => by rwa [hbody] at hbelow) with
      hnone | ⟨tag, old, hbody, hone, htag, hfits⟩
    · exact leaves_of_run_eq_ok (hnone data) hs
    · obtain ⟨count, hcount, hrun⟩ := run_append_of_isOne hfind hbody htag hfits hone data
      refine leaves_of_run_eq_ok hrun (hs.refill hfind hbody ?_ ⟨htag, ?_⟩)
      · rw [List.length_append]
        exact Nat.le_add_right _ _
      · rw [List.length_append, List.length_take]
        omega

theorem require_eq_ok {failed : Assertion} {holds : Bool} (hok : require failed holds = .ok ()) :
    holds = true := by
  unfold require at hok
  split at hok
  · assumption
  · cases hok

/-- What a view may be made over, and how far it may reach. -/
theorem checkView_eq_ok {c : Body ρ} {start count : Nat} (hcheck : checkView c start count = .ok ()) :
    c.child? = none ∧ 0 < count ∧ count < c.length ∧ start + count ≤ c.length := by
  have hbounds : (do
      require .properPart (decide (0 < count ∧ count < c.length))
      require .startInside (decide (start ≤ (← checkedSub c.length count))) : Except Fault Unit) =
        .ok () ∧ c.child? = none := by
    cases c with
    | buffer tag bytes => exact ⟨hcheck, rfl⟩
    | external bytes keeper => exact ⟨hcheck, rfl⟩
    | view start length child => cases hcheck
    | malformed tag length => cases hcheck
  obtain ⟨hbounds, hflat⟩ := hbounds
  cases hproper : require .properPart (decide (0 < count ∧ count < c.length)) with
  | error fault =>
    rw [hproper] at hbounds
    cases hbounds
  | ok _ =>
    obtain ⟨hpos, hlt⟩ := of_decide_eq_true (require_eq_ok hproper)
    have hlast : checkedSub c.length count = .ok (c.length - count) := if_pos (Nat.le_of_lt hlt)
    rw [hproper, hlast] at hbounds
    have hinside := of_decide_eq_true (require_eq_ok hbounds)
    exact ⟨hflat, hpos, hlt, by omega⟩

theorem shaped_newView (child : NodeId) (start count : Nat) :
    Preserves (Shaped : Heap ρ → Prop) (newView child start count) := by
  intro h hs
  refine (stable_shaped.leaves_ask hs _).bind ?_
  rintro c _ ⟨hread, rfl⟩
  refine (stable_shaped.leaves_attempt hs _).bind ?_
  rintro _ _ ⟨hcheck, rfl⟩
  have hc := body?_of_body_eq_ok hread
  obtain ⟨n, hn, rfl⟩ := body?_eq_some_iff.1 hc
  obtain ⟨hflat, hpos, hlt, hle⟩ := checkView_eq_ok hcheck
  obtain ⟨_, _, _, hword⟩ := Body.exists_stored? ((hs child n.body hc).sound_of_flat hflat) hflat
  rw [leaves_bind_of_run_eq_ok (run_retain hn)]
  refine (hs.putRefs hn _).push ⟨?_, hpos, by omega, fun c' hc' => ?_⟩
  · rw [put, Arena.size_set]
    exact lt_size_of_find? hn
  · rw [body?_put_refs hn, hc] at hc'
    cases hc'
    exact ⟨hflat, hlt, hle⟩

end Heap
end RopeStore
