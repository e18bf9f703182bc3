import RopeStore.Proofs.Heap.Owned

/-!
# How a change of the heap keeps the counts right

* `Owned.perm` : the order of the outside references does not matter;
* `Owned.push`, `Owned.pushPermanent` : a new node takes over the reference to its child;
* `Owned.retain`, `Owned.giveUp` : one reference more, and one less of several;
* `Owned.without` : the last reference goes, and what the node held is outside again;
* `Owned.refill` : other bytes in a buffer with one owner.
-/

namespace RopeStore
variable {ρ : Type} {h : Heap ρ} {held : List NodeId} {id : NodeId} {n : Node ρ}

/-! ## What is sound stays sound -/

theorem Body.Sound.of_body? {h' : Heap ρ} {b : Body ρ} (hs : b.Sound h)
    (hkeep : ∀ child c, b.child? = some child → h.body? child = some c →
      h'.body? child = some c) : b.Sound h' := by
  cases b with
  | buffer tag bytes => exact hs
  | external bytes keeper => exact hs
  | view start length child =>
    obtain ⟨hpos, c, hc, hflat, hlt, hle⟩ := hs
    exact ⟨hpos, c, hkeep child c rfl hc, hflat, hlt, hle⟩
  | malformed tag length => exact hs

theorem Body.Sound.child {b : Body ρ} (hs : b.Sound h) {child : NodeId}
    (hc : b.child? = some child) :
    ∃ m, h.find? child = some m ∧ m.body.child? = none := by
  cases b with
  | view start length child' =>
    obtain ⟨-, c, hbody, hflat, -⟩ := hs
    obtain rfl : child' = child := by simpa [Body.child?, Body.view?] using hc
    obtain ⟨m, hm, rfl⟩ := Heap.body?_eq_some_iff.1 hbody
    exact ⟨m, hm, hflat⟩
  | buffer tag bytes => simp [Body.child?, Body.view?] at hc
  | external bytes keeper => simp [Body.child?, Body.view?] at hc
  | malformed tag length => simp [Body.child?, Body.view?] at hc

namespace Owned

theorem sound_of_find? (ho : Owned h held) (hn : h.find? id = some n) : n.body.Sound h :=
  ho.sound (Heap.body?_of_find? hn)

theorem viewsOver_next (ho : Owned h held) : h.viewsOver h.next = 0 := by
  by_contra hne
  obtain ⟨j, m, hm, hc⟩ := Heap.viewsOver_pos_iff.1 (Nat.pos_of_ne_zero hne)
  obtain ⟨c, hfind, -⟩ := (ho.sound_of_find? hm).child hc
  rw [Heap.find?_next] at hfind
  cases hfind

theorem count_next (ho : Owned h held) : held.count h.next = 0 := by
  rw [List.count_eq_zero]
  intro hmem
  obtain ⟨c, hfind⟩ := ho.live hmem
  rw [Heap.find?_next] at hfind
  cases hfind

theorem find?_of_viewsOver_pos (ho : Owned h held) (hpos : 0 < h.viewsOver id) :
    ∃ m, h.find? id = some m := by
  obtain ⟨j, m, hm, hc⟩ := Heap.viewsOver_pos_iff.1 hpos
  obtain ⟨c, hfind, -⟩ := (ho.sound_of_find? hm).child hc
  exact ⟨c, hfind⟩

theorem congr {h' : Heap ρ} {held' : List NodeId} (ho : Owned h held)
    (hfind : ∀ j, h'.find? j = h.find? j) (hviews : ∀ j, h'.viewsOver j = h.viewsOver j)
    (hcount : ∀ j, held'.count j = held.count j) : Owned h' held' where
  sound := by
    intro j b hb
    have hbody : ∀ j, h'.body? j = h.body? j := fun j => by rw [Heap.body?, hfind, Heap.body?]
    rw [hbody] at hb
    exact (ho.sound hb).of_body? fun child c _ hc => by rwa [hbody]
  live := by
    intro j hj
    rw [← List.count_pos_iff, hcount, List.count_pos_iff] at hj
    rw [hfind]
    exact ho.live hj
  counts := by
    intro j m hm
    rw [hfind] at hm
    rw [hviews, hcount]
    exact ho.counts hm
  empty := by
    rw [hfind]
    exact ho.empty

theorem perm {held' : List NodeId} (ho : Owned h held) (hp : held'.Perm held) : Owned h held' :=
  ho.congr (fun _ => rfl) (fun _ => rfl) fun j => hp.count_eq j

theorem tell (ho : Owned h held) (ns : List (Notice ρ)) : Owned (h.tell ns) held :=
  ho.congr (fun _ => rfl) (fun _ => rfl) fun _ => rfl

/-! ## One reference more or less -/

theorem putRefs (ho : Owned h held) {held' : List NodeId} (hn : h.find? id = some n)
    {refs : RefCount} (hcounts : Counts { n with refs } (held'.count id + h.viewsOver id))
    (hcount : ∀ j, j ≠ id → held'.count j = held.count j) :
    Owned (h.put id { n with refs }) held' where
  sound := by
    intro j b hb
    rw [Heap.body?_put_refs hn] at hb
    exact (ho.sound hb).of_body? fun child c _ hc => by rwa [Heap.body?_put_refs hn]
  live := by
    intro j hj
    rw [Heap.find?_put hn]
    by_cases hid : j = id
    · rw [if_pos hid]
      exact ⟨_, rfl⟩
    · rw [if_neg hid]
      rw [← List.count_pos_iff, hcount j hid, List.count_pos_iff] at hj
      exact ho.live hj
  counts := by
    intro j m hm
    rw [Heap.find?_put hn] at hm
    have hviews : (h.put id { n with refs }).viewsOver j = h.viewsOver j :=
      Heap.viewsOver_put (n := { n with refs }) hn rfl j
    rw [hviews]
    by_cases hid : j = id
    · rw [if_pos hid] at hm
      cases hm
      rwa [hid]
    · rw [if_neg hid] at hm
      rw [hcount j hid]
      exact ho.counts hm
  empty := by
    obtain ⟨e, he, hrefs, hbody⟩ := ho.empty
    rw [Heap.find?_put hn]
    by_cases hid : Heap.emptyId = id
    · rw [if_pos hid]
      rw [hid, hn] at he
      cases he
      cases hcounts with
      | immortal hrefs' _ => exact ⟨_, rfl, hrefs', hbody⟩
      | mortal _ _ hb => exact absurd ⟨[], hbody⟩ hb
    · rw [if_neg hid]
      exact ⟨e, he, hrefs, hbody⟩

theorem retain (ho : Owned h held) (hn : h.find? id = some n) :
    Owned (h.put id { n with refs := ⟨n.refs.packed + RefCount.unit⟩ }) (id :: held) := by
  refine ho.putRefs hn ?_ fun j hj => List.count_cons_of_ne (Ne.symm hj)
  rw [List.count_cons_self]
  cases ho.counts hn with
  | immortal hrefs hbody => exact .immortal ((RefCount.isImmortal_add_unit _).trans hrefs) hbody
  | mortal hrefs hpos hbody =>
    have howners : held.count id + 1 + h.viewsOver id = held.count id + h.viewsOver id + 1 := by
      omega
    refine .mortal ?_ (by omega) hbody
    rw [howners, hrefs, RefCount.ofNat_succ]

/-- One reference less, where another owner is left or the node is immortal. -/
theorem giveUp (ho : Owned h (id :: held)) (hn : h.find? id = some n)
    (hleft : n.refs.isImmortal = true ∨ 0 < held.count id + h.viewsOver id) :
    Owned (h.put id { n with refs := ⟨n.refs.packed - RefCount.unit⟩ }) held := by
  refine ho.putRefs hn ?_ fun j hj => (List.count_cons_of_ne (Ne.symm hj)).symm
  have hcounts := ho.counts hn
  rw [List.count_cons_self] at hcounts
  cases hcounts with
  | immortal hrefs hbody => exact .immortal ((RefCount.isImmortal_sub_unit _).trans hrefs) hbody
  | mortal hrefs hpos hbody =>
    have hmortal : n.refs.isImmortal = false := by rw [hrefs, RefCount.isImmortal_ofNat]
    rw [hmortal] at hleft
    have hpos' : 0 < held.count id + h.viewsOver id := by simpa using hleft
    have howners : held.count id + 1 + h.viewsOver id = held.count id + h.viewsOver id + 1 := by
      omega
    refine .mortal ?_ hpos' hbody
    rw [hrefs, howners, ← RefCount.ofNat_eq_pred]

/-! ## New nodes and the end of a node -/

/-- A reference that was made counts once at its own node. -/
theorem count_toList (o : Option NodeId) (j : NodeId) :
    o.toList.count j = if o = some j then 1 else 0 := by
  cases o with
  | none => simp
  | some i => simp [List.count_singleton]

theorem child?_ne_next {b : Body ρ} (hs : b.Sound h) : b.child? ≠ some h.next := by
  intro hc
  obtain ⟨c, hfind, -⟩ := hs.child hc
  rw [Heap.find?_next] at hfind
  cases hfind

theorem sound_push {b : Body ρ} (hs : b.Sound h) (m : Node ρ) : b.Sound (h.push m) :=
  hs.of_body? fun child c hc hbody => by
    have hne : child ≠ h.next := by
      rintro rfl
      exact child?_ne_next hs hc
    rw [Heap.body?_push, if_neg hne]
    exact hbody

/-- What all new nodes have in common. -/
theorem push_aux {held' : List NodeId} (ho : Owned h held) {m : Node ρ} (hs : m.body.Sound h)
    (hlive : ∀ j ∈ held', j = h.next ∨ j ∈ held)
    (hnew : Counts m (held'.count h.next))
    (hold : ∀ j, j ≠ h.next →
      held'.count j + (if m.body.child? = some j then 1 else 0) = held.count j) :
    Owned (h.push m) held' where
  sound := by
    intro j b hb
    rw [Heap.body?_push] at hb
    split at hb
    · cases hb
      exact sound_push hs m
    · exact sound_push (ho.sound hb) m
  live := by
    intro j hj
    rw [Heap.find?_push]
    by_cases hnext : j = h.next
    · exact ⟨m, if_pos hnext⟩
    · rw [if_neg hnext]
      exact ho.live ((hlive j hj).resolve_left hnext)
  counts := by
    intro j k hk
    rw [Heap.find?_push] at hk
    rw [Heap.viewsOver_push]
    split at hk
    · rename_i hnext
      cases hk
      rw [hnext, ho.viewsOver_next, if_neg (child?_ne_next hs)]
      exact hnew
    · rename_i hnext
      have := ho.counts hk
      rw [← hold j hnext] at this
      rwa [← Nat.add_assoc, Nat.add_right_comm]
  empty := by
    obtain ⟨e, he, hrest⟩ := ho.empty
    rw [Heap.find?_push, if_neg (Heap.ne_next_of_body? (Heap.body?_of_find? he))]
    exact ⟨e, he, hrest⟩

/-- A new node with one reference takes over the reference to its child. -/
theorem push {b : Body ρ} (ho : Owned h (b.child?.toList ++ held)) (hs : b.Sound h)
    (hb : ¬ b.IsPermanent) : Owned (h.push ⟨.fresh, b⟩) (h.next :: held) := by
  have hnext := ho.count_next
  rw [List.count_append] at hnext
  have hone : (h.next :: held).count h.next = 1 := by
    rw [List.count_cons_self]
    omega
  refine ho.push_aux hs ?_ ?_ ?_
  · intro j hj
    rcases List.mem_cons.1 hj with rfl | hj
    · exact Or.inl rfl
    · exact Or.inr (List.mem_append_right _ hj)
  · rw [hone]
    exact .mortal RefCount.fresh_eq_ofNat Nat.one_pos hb
  · intro j hj
    rw [List.count_cons_of_ne (Ne.symm hj), List.count_append, count_toList, Nat.add_comm]

theorem pushPermanent (ho : Owned h held) {bytes : List UInt8} (hb : bytes.length < wordBound) :
    Owned (h.push ⟨.immortal, .external bytes .permanent⟩) held :=
  ho.push_aux hb (fun _ hj => Or.inr hj) (.immortal RefCount.isImmortal_immortal ⟨bytes, rfl⟩)
    fun _ _ => rfl

/-- The last reference to a mortal node goes, and the reference to its child is outside again. -/
theorem without (ho : Owned h (id :: held)) (hn : h.find? id = some n)
    (hmortal : n.refs.isImmortal = false) (hlast : held.count id + h.viewsOver id = 0) :
    Owned (h.without id) (n.body.child?.toList ++ held) := by
  have hviews : h.viewsOver id = 0 := by omega
  -- No view is over the node and nothing else holds it, so all that is left can do without it.
  have hflat : ∀ {j : NodeId} {m : Node ρ}, h.find? j = some m → m.body.child? ≠ some id := by
    intro j m hm hc
    have := Heap.viewsOver_pos_iff.2 ⟨j, m, hm, hc⟩
    omega
  have hheld : ∀ {j : NodeId}, j ∈ held → j ≠ id := by
    rintro j hj rfl
    have := List.count_pos_iff.2 hj
    omega
  constructor
  case sound =>
    intro j b hb
    rw [Heap.body?_without] at hb
    split at hb
    · cases hb
    · obtain ⟨m, hm, rfl⟩ := Heap.body?_eq_some_iff.1 hb
      refine (ho.sound hb).of_body? fun child c hc hbody => ?_
      have hne : child ≠ id := by
        rintro rfl
        exact hflat hm hc
      rw [Heap.body?_without, if_neg hne]
      exact hbody
  case live =>
    intro j hj
    rw [Heap.find?_without]
    rcases List.mem_append.1 hj with hj | hj
    · have hc : n.body.child? = some j := by simpa using hj
      obtain ⟨c, hfind, -⟩ := (ho.sound_of_find? hn).child hc
      have hne : j ≠ id := by
        rintro rfl
        exact hflat hn hc
      rw [if_neg hne]
      exact ⟨c, hfind⟩
    · rw [if_neg (hheld hj)]
      exact ho.live (List.mem_cons_of_mem _ hj)
  case counts =>
    intro j m hm
    rw [Heap.find?_without] at hm
    split at hm
    · cases hm
    · rename_i hid
      have hcounts := ho.counts hm
      have hdrop := Heap.viewsOver_without hn j
      rw [List.count_cons_of_ne (Ne.symm hid), ← hdrop] at hcounts
      rw [List.count_append, count_toList]
      rwa [Nat.add_comm _ (held.count j), Nat.add_assoc, Nat.add_comm (ite _ _ _)]
  case empty =>
    obtain ⟨e, he, hrefs, hbody⟩ := ho.empty
    have hid : Heap.emptyId ≠ id := by
      intro hid
      rw [hid, hn] at he
      cases he
      rw [hrefs] at hmortal
      cases hmortal
    rw [Heap.find?_without, if_neg hid]
    exact ⟨e, he, hrefs, hbody⟩

/-- Other bytes in a buffer that no view is over. -/
theorem refill (ho : Owned h held) {tag : UInt8} {old bytes : List UInt8}
    (hn : h.find? id = some n) (hbody : n.body = .buffer tag old) (hviews : h.viewsOver id = 0)
    (hfits : bytes.length + SizeClass.headerSize ≤ SizeClass.sizeFor tag) :
    Owned (h.put id { n with body := .buffer tag bytes }) held := by
  have hchild : (Body.buffer tag bytes : Body ρ).child? = n.body.child? := by rw [hbody]; rfl
  have hs := ho.sound_of_find? hn
  rw [hbody] at hs
  constructor
  case sound =>
    intro j b hb
    rw [Heap.body?_put hn] at hb
    split at hb
    · cases hb
      exact ⟨hs.1, hfits⟩
    · obtain ⟨m, hm, rfl⟩ := Heap.body?_eq_some_iff.1 hb
      refine (ho.sound hb).of_body? fun child c hc hbody => ?_
      rw [Heap.body?_put hn, if_neg]
      · exact hbody
      · rintro rfl
        have := Heap.viewsOver_pos_iff.2 ⟨j, m, hm, hc⟩
        omega
  case live =>
    intro j hj
    rw [Heap.find?_put hn]
    split
    · exact ⟨_, rfl⟩
    · exact ho.live hj
  case counts =>
    intro j m hm
    rw [Heap.find?_put hn] at hm
    rw [Heap.viewsOver_put (n := { n with body := .buffer tag bytes }) hn hchild]
    split at hm
    · rename_i hid
      subst hid
      cases hm
      cases ho.counts hn with
      | immortal hrefs hp =>
        obtain ⟨bytes', hp⟩ := hp
        rw [hbody] at hp
        cases hp
      | mortal hrefs hpos hp =>
        refine .mortal hrefs hpos fun hpermanent => ?_
        obtain ⟨bytes', hp⟩ := hpermanent
        cases hp
    · exact ho.counts hm
  case empty =>
    obtain ⟨e, he, hrefs, hb⟩ := ho.empty
    have hid : Heap.emptyId ≠ id := by
      intro hid
      rw [hid, hn] at he
      cases he
      rw [hbody] at hb
      cases hb
    rw [Heap.find?_put hn, if_neg hid]
    exact ⟨e, he, hrefs, hb⟩

end Owned

theorem Heap.find?_initial {m : Node ρ} (hm : (initial : Heap ρ).find? id = some m) :
    id = emptyId ∧ m = ⟨.immortal, .external [] .permanent⟩ := by
  have hinit : (initial : Heap ρ) = push ⟨Arena.empty, []⟩ ⟨.immortal, .external [] .permanent⟩ := rfl
  rw [hinit, find?_push] at hm
  split at hm
  · rename_i hid
    cases hm
    exact ⟨hid, rfl⟩
  · cases hm

theorem owned_initial : Owned (Heap.initial : Heap ρ) [] := by
  constructor
  case sound =>
    intro j b hb
    obtain ⟨m, hm, rfl⟩ := Heap.body?_eq_some_iff.1 hb
    rw [(Heap.find?_initial hm).2]
    exact (by decide : 0 < wordBound)
  case live =>
    intro j hj
    cases hj
  case counts =>
    intro j m hm
    rw [(Heap.find?_initial hm).2]
    exact .immortal RefCount.isImmortal_immortal ⟨[], rfl⟩
  case empty => exact ⟨_, rfl, RefCount.isImmortal_immortal, rfl⟩

end RopeStore
