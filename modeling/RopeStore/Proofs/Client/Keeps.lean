import Mathlib.Data.List.Basic
import Mathlib.Data.List.Perm.Basic
import RopeStore.Proofs.Client.Machine

/-!
# Every act of a client keeps the counts right

* `Client.Statics` : the nodes that were made to live for ever are live;
* `Keeps c c'` : the way from `c` to `c'` left right counts and destroyed only what may be destroyed;
* `keeps_keep`, `keeps_keepValue`, `keeps_perform`, `keeps_spend`, `keeps_change` : one lemma for each
  kind of act, which moves the facts about the heap to what the client holds;
* `keeps_act` : every act.
-/

namespace RopeStore
variable {ρ α : Type}

theorem Legible.perm {h : Heap ρ} {held held' : List NodeId} (hl : Legible h held)
    (hp : held'.Perm held) : Legible h held' := by
  intro id
  rw [hp.count_eq]
  exact hl id

theorem Evolves.permanent {h h' : Heap ρ} {gone : List NodeId} (hev : Evolves h h' gone)
    {id : NodeId} (hperm : ∃ b, h.body? id = some b ∧ b.IsPermanent) :
    ∃ b, h'.body? id = some b ∧ b.IsPermanent := by
  obtain ⟨b, hb, hperm⟩ := hperm
  have hgone : id ∉ gone := by
    intro hmem
    obtain ⟨b', hb', hmortal⟩ := hev.mortal id hmem
    rw [hb] at hb'
    cases hb'
    exact hmortal hperm
  obtain ⟨b', hb', hbecomes⟩ := hev.kept id b hgone hb
  exact ⟨b', hb', hbecomes.isPermanent_iff.1 hperm⟩

namespace Client
variable {c c' : Client ρ} {i : Nat} {id : NodeId} {v : Value}

/-- The nodes that were made to live for ever are live and have no keeper. -/
def Statics (c : Client ρ) : Prop := ∀ id ∈ c.statics, ∃ b, c.heap.body? id = some b ∧ b.IsPermanent

/-- The way from one state of a client to another left right counts, and destroyed only what may be
destroyed. -/
structure Keeps (c c' : Client ρ) : Prop where
  owned : Owned c'.heap c'.held
  statics : c'.Statics
  evolves : ∃ gone, Evolves c.heap c'.heap gone
  born : c'.born = c.born

/-! ## Places -/

theorem mem_held_of_ref (hi : c.refs[i]? = some id) : id ∈ c.held :=
  List.mem_append_left _ (List.mem_of_getElem? hi)

theorem mem_held_of_root (hi : c.values[i]? = some v) (hroot : v.root? = some id) :
    id ∈ c.held := by
  refine List.mem_append_right _ (List.mem_append_right _ ?_)
  refine List.mem_flatMap.2 ⟨v, List.mem_of_getElem? hi, ?_⟩
  rw [Value.roots_of_some hroot]
  exact List.mem_singleton_self id

theorem live_of_find? (ho : Owned c.heap c.held) {p : Place} (hp : c.find? p = some id) :
    ∃ n, c.heap.find? id = some n := by
  cases p with
  | ref i => exact ho.live (mem_held_of_ref hp)
  | root i =>
    obtain ⟨v, hv, hroot⟩ := Option.bind_eq_some_iff.1 hp
    exact ho.live (mem_held_of_root hv hroot)
  | child of =>
    obtain ⟨parent, -, hchild⟩ := Option.bind_eq_some_iff.1 hp
    obtain ⟨b, hb, hc⟩ := Option.bind_eq_some_iff.1 hchild
    obtain ⟨n, hn, -⟩ := (ho.sound hb).child hc
    exact ⟨n, hn⟩

theorem find?_of_owners_pos (ho : Owned c.heap c.held) (hpos : 0 < c.owners id) :
    ∃ n, c.heap.find? id = some n := by
  rw [owners_eq] at hpos
  by_cases hheld : id ∈ c.held
  · exact ho.live hheld
  · rw [List.count_eq_zero.2 hheld, Nat.zero_add] at hpos
    exact ho.find?_of_viewsOver_pos hpos

/-! ## Positions in what is held -/

theorem perm_eraseIdx {β : Type} {l : List β} {x : β} (hx : l[i]? = some x) :
    l.Perm (x :: l.eraseIdx i) := by
  obtain ⟨hi, rfl⟩ := List.getElem?_eq_some_iff.1 hx
  exact (List.getElem_cons_eraseIdx_perm hi).symm

theorem count_held (c : Client ρ) (j : NodeId) : c.held.count j =
    c.refs.count j + c.raws.count j + (c.values.flatMap Value.roots).count j := by
  rw [held, List.count_append, List.count_append, Nat.add_assoc]

/-- Two clients that hold every node equally often keep the same counts right. -/
theorem owned_of_count {h : Heap ρ} {held : List NodeId} (ho : Owned h held)
    (hcount : ∀ j, c'.held.count j = held.count j) : Owned h c'.held :=
  ho.perm (List.perm_iff_count.2 hcount)

theorem held_perm_of_ref (hi : c.refs[i]? = some id) :
    c.held.Perm (id :: held { c with refs := c.refs.eraseIdx i }) :=
  (perm_eraseIdx hi).append_right _

theorem count_roots_of_value (hi : c.values[i]? = some v) (j : NodeId) :
    (c.values.flatMap Value.roots).count j =
      v.roots.count j + ((c.values.eraseIdx i).flatMap Value.roots).count j := by
  rw [((perm_eraseIdx hi).flatMap_right Value.roots).count_eq, List.flatMap_cons,
    List.count_append]

theorem held_perm_of_value (hi : c.values[i]? = some v) :
    c.held.Perm (v.roots ++ held { c with values := c.values.eraseIdx i }) := by
  apply List.perm_iff_count.2
  intro j
  simp only [List.count_append, count_held, count_roots_of_value hi]
  omega

theorem count_roots_of_set (hi : c.values[i]? = some v) (w : Value) (j : NodeId) :
    ((c.values.set i w).flatMap Value.roots).count j =
      w.roots.count j + ((c.values.eraseIdx i).flatMap Value.roots).count j := by
  obtain ⟨hlt, -⟩ := List.getElem?_eq_some_iff.1 hi
  rw [((List.set_perm_cons_eraseIdx hlt w).flatMap_right Value.roots).count_eq,
    List.flatMap_cons, List.count_append]

/-! ## Kinds of acts -/

/-- Only the heap and what is held of it changed. -/
theorem Keeps.of_owned (hs : c.Statics) (ho : Owned c'.heap c'.held)
    (hev : ∃ gone, Evolves c.heap c'.heap gone) (hstatics : c'.statics = c.statics)
    (hborn : c'.born = c.born) : Keeps c c' where
  owned := ho
  statics := by
    intro id hid
    rw [hstatics] at hid
    obtain ⟨gone, hgone⟩ := hev
    exact hgone.permanent (hs id hid)
  evolves := hev
  born := hborn

theorem Keeps.of_same (hs : c.Statics) (ho : Owned c'.heap c'.held) (hheap : c'.heap = c.heap)
    (hstatics : c'.statics = c.statics) (hborn : c'.born = c.born) : Keeps c c' :=
  .of_owned hs ho ⟨[], by rw [hheap]; exact Evolves.refl c.heap⟩ hstatics hborn

theorem Keeps.refl (ho : Owned c.heap c.held) (hs : c.Statics) : Keeps c c :=
  .of_same hs ho rfl rfl rfl

/-- An act on something that is named by its position. -/
theorem keeps_elim {β : Type} (ho : Owned c.heap c.held) (hs : c.Statics) {o : Option β}
    {use : β → Client ρ} (huse : ∀ x, o = some x → Keeps c (use x)) : Keeps c (o.elim c use) := by
  cases o with
  | none => exact .refl ho hs
  | some x => exact huse x rfl

theorem keeps_keep (ho : Owned c.heap c.held) (hs : c.Statics) {op : HeapM ρ NodeId}
    (hop : Makes op c.heap c.held) : Keeps c (c.keep op) := by
  unfold Makes Leaves at hop
  unfold keep
  cases hrun : op.run c.heap with
  | ok id heap =>
    rw [hrun] at hop
    obtain ⟨howned, hev⟩ := hop
    refine .of_owned hs (owned_of_count howned fun j => ?_) ⟨[], hev⟩ rfl rfl
    simp only [count_held, List.count_append, List.count_cons, List.count_nil]
    omega
  | error fault heap =>
    rw [hrun] at hop
    cases hop
    exact .refl ho hs

theorem keeps_keepValue (ho : Owned c.heap c.held) (hs : c.Statics) {op : HeapM ρ Value}
    (hop : Leaves op c.heap (fun v h' => Owned h' (v.roots ++ c.held) ∧ Evolves c.heap h' [])
      fun _ h' => h' = c.heap) : Keeps c (c.keepValue op) := by
  unfold Leaves at hop
  unfold keepValue
  cases hrun : op.run c.heap with
  | ok v heap =>
    rw [hrun] at hop
    obtain ⟨howned, hev⟩ := hop
    refine .of_owned hs (owned_of_count howned fun j => ?_) ⟨[], hev⟩ rfl rfl
    simp only [count_held, List.flatMap_append, List.flatMap_singleton, List.count_append]
    omega
  | error fault heap =>
    rw [hrun] at hop
    cases hop
    exact .refl ho hs

theorem keeps_perform (hs : c.Statics) {op : HeapM ρ α}
    (hop : Leaves op c.heap (fun _ h' => Owned h' c.held ∧ ∃ gone, Evolves c.heap h' gone)
      fun _ h' => Owned h' c.held ∧ ∃ gone, Evolves c.heap h' gone) : Keeps c (c.perform op) := by
  unfold Leaves at hop
  unfold perform
  cases hrun : op.run c.heap with
  | ok a heap =>
    rw [hrun] at hop
    exact .of_owned hs hop.1 hop.2 rfl rfl
  | error fault heap =>
    rw [hrun] at hop
    exact .of_owned hs hop.1 hop.2 rfl rfl

theorem keeps_spend (ho : Owned c.heap c.held) (hl : Legible c.heap c.held) (hs : c.Statics)
    {use : Client ρ → NodeId → Client ρ}
    (huse : ∀ id rest, rest = { c with refs := c.refs.eraseIdx i } →
      Owned c.heap (id :: held rest) → Legible c.heap (id :: held rest) → Keeps c (use rest id)) :
    Keeps c (c.spend i use) := by
  unfold spend
  cases hi : c.refs[i]? with
  | none => exact .refl ho hs
  | some id =>
    have hperm := (held_perm_of_ref hi).symm
    exact huse id _ rfl (ho.perm hperm) (hl.perm hperm)

theorem keeps_change {base : Client ρ} (hs : base.Statics) (hstatics : c.statics = base.statics)
    (hborn : c.born = base.born) (hi : c.values[i]? = some v) {op : Value.ValueM ρ α}
    {handed : α → List NodeId}
    (hop : Leaves op ⟨c.heap, v⟩
      (fun a s => Owned s.heap
        (s.value.roots ++ (handed a ++ held { c with values := c.values.eraseIdx i })) ∧
          ∃ gone, Evolves base.heap s.heap gone)
      fun _ s => Value.Settles base.heap (held { c with values := c.values.eraseIdx i }) s) :
    Keeps base (c.change i v op handed) := by
  unfold Leaves at hop
  unfold change
  cases hrun : op.run ⟨c.heap, v⟩ with
  | ok a s =>
    rw [hrun] at hop
    obtain ⟨howned, hev⟩ := hop
    refine .of_owned hs (owned_of_count howned fun j => ?_) hev hstatics hborn
    simp only [count_held, List.count_append, count_roots_of_set hi]
    omega
  | error fault s =>
    rw [hrun] at hop
    obtain ⟨howned, hev⟩ := hop
    refine .of_owned hs (owned_of_count howned fun j => ?_) hev hstatics hborn
    simp only [count_held, List.count_append, count_roots_of_set hi]
    omega

/-! ## All acts -/

/-- **Every act, also one that faults, keeps the counts right.** -/
theorem keeps_act (ho : Owned c.heap c.held) (hl : Legible c.heap c.held) (hs : c.Statics)
    (a : Act ρ) : Keeps c (c.act a) := by
  cases a with
  | newBuffer length => exact keeps_keep ho hs (Heap.makes_newBuffer ho length)
  | newLargeBuffer length => exact keeps_keep ho hs (Heap.makes_newLargeBuffer ho length)
  | ofBytes data => exact keeps_keep ho hs (Heap.makes_ofBytes ho data.2)
  | bufferWithExtra data extra => exact keeps_keep ho hs (Heap.makes_bufferWithExtra ho data extra)
  | lend bytes owner => exact keeps_keep ho hs (Heap.makes_ofOwner ho bytes.2 owner)
  | newStatic bytes =>
    obtain ⟨howned, hev, hbody⟩ := Heap.ends_newStatic ho bytes.2
    refine ⟨howned, ?_, ⟨[], hev⟩, rfl⟩
    intro id hid
    rcases List.mem_append.1 hid with hid | hid
    · exact hev.permanent (hs id hid)
    · rw [List.mem_singleton.1 hid]
      exact ⟨_, hbody, bytes, rfl⟩
  | ofStatic i =>
    apply keeps_elim ho hs
    intro id hi
    obtain ⟨b, hb, hperm⟩ := hs id (List.mem_of_getElem? hi)
    exact keeps_keep ho hs (Heap.makes_ofStatic ho hb hperm)
  | empty => exact keeps_keep ho hs (Heap.makes_empty ho)
  | part of pos count =>
    apply keeps_elim ho hs
    intro id hp
    obtain ⟨n, hn⟩ := live_of_find? ho hp
    exact keeps_keep ho hs (Heap.makes_part ho hn pos count)
  | partOrCopy of pos count =>
    apply keeps_elim ho hs
    intro id hp
    obtain ⟨n, hn⟩ := live_of_find? ho hp
    exact keeps_keep ho hs (Heap.makes_partOrCopy ho hn pos count)
  | append i data =>
    apply keeps_elim ho hs
    intro id hi
    refine keeps_perform hs ((Heap.ends_append ho hl (mem_held_of_ref hi) data).mono ?_).leaves
    rintro _ h' ⟨howned, hev⟩
    exact ⟨howned, [], hev⟩
  | clone of =>
    apply keeps_elim ho hs
    intro id hp
    obtain ⟨n, hn⟩ := live_of_find? ho hp
    exact keeps_keep ho hs (Heap.makes_clone ho hn)
  | drop i =>
    show Keeps c (c.spend i fun c id => c.perform (Heap.release id))
    apply keeps_spend ho hl hs
    rintro id rest rfl ho' hl'
    have hkeeps : Keeps { c with refs := c.refs.eraseIdx i }
        (perform { c with refs := c.refs.eraseIdx i } (Heap.release id)) :=
      keeps_perform (c := { c with refs := c.refs.eraseIdx i }) hs
        (Heap.leaves_release_evolves ho' hl')
    exact ⟨hkeeps.owned, hkeeps.statics, hkeeps.evolves, hkeeps.born⟩
  | intoRaw i =>
    show Keeps c (c.spend i fun c id => { c with raws := c.raws ++ [id] })
    apply keeps_spend ho hl hs
    rintro id rest rfl ho' -
    refine .of_same hs (owned_of_count ho' fun j => ?_) rfl rfl rfl
    simp only [count_held, List.count_append, List.count_cons, List.count_nil]
    omega
  | fromRaw i =>
    apply keeps_elim ho hs
    intro id hi
    refine .of_same hs (owned_of_count ho fun j => ?_) rfl rfl rfl
    rw [count_held c, (perm_eraseIdx hi).count_eq]
    simp only [count_held, List.count_append, List.count_cons, List.count_nil]
    omega
  | newValue =>
    show Keeps c { c with values := c.values ++ [Value.new] }
    refine .of_same hs (owned_of_count ho fun j => ?_) rfl rfl rfl
    simp only [count_held, List.flatMap_append, List.flatMap_singleton, List.count_append,
      Value.roots_new, List.count_nil, Nat.add_zero]
  | shortValue data =>
    cases hv : Value.ofShort data.1 with
    | ok v =>
      simp only [act, hv]
      refine .of_same hs (owned_of_count ho fun j => ?_) rfl rfl rfl
      simp only [count_held, List.flatMap_append, List.flatMap_singleton, List.count_append,
        Value.roots_ofShort hv, List.count_nil, Nat.add_zero]
    | error fault =>
      simp only [act, hv]
      exact .refl ho hs
  | treeValue i =>
    show Keeps c (c.spend i fun c id => { c with values := c.values ++ [Value.ofTree id] })
    apply keeps_spend ho hl hs
    rintro id rest rfl ho' -
    refine .of_same hs (owned_of_count ho' fun j => ?_) rfl rfl rfl
    simp only [count_held, List.flatMap_append, List.flatMap_singleton, List.count_append,
      Value.roots_ofTree, List.count_cons, List.count_nil]
    omega
  | copyValue data => exact keeps_keepValue ho hs (Value.leaves_copy ho data.2)
  | cloneValue i =>
    apply keeps_elim ho hs
    intro v hi
    exact keeps_keepValue ho hs
      (Value.ends_clone ho fun root hroot => mem_held_of_root hi hroot).leaves
  | dropValue i =>
    apply keeps_elim ho hs
    intro v hi
    have hperm := (held_perm_of_value hi).symm
    have hdrop := Value.leaves_dropRoot (ho.perm hperm) (hl.perm hperm)
    unfold Leaves at hdrop
    unfold Value.drop
    cases hrun : Value.dropRoot.run ⟨c.heap, v⟩ with
    | ok a s =>
      rw [hrun] at hdrop
      obtain ⟨-, howned, gone, hgone⟩ := hdrop
      exact .of_owned hs howned ⟨gone, hgone.evolves⟩ rfl rfl
    | error fault s =>
      rw [hrun] at hdrop
      obtain ⟨-, howned, gone, hgone⟩ := hdrop
      exact .of_owned hs howned ⟨gone, hgone.evolves⟩ rfl rfl
  | setBytes i data =>
    apply keeps_elim ho hs
    intro v hi
    have hperm := (held_perm_of_value hi).symm
    exact keeps_change hs rfl rfl hi
      (Value.leaves_setBytes (ho.perm hperm) (hl.perm hperm) data)
  | makeTree i j =>
    apply keeps_elim ho hs
    intro v hi
    apply keeps_spend ho hl hs
    rintro root rest rfl ho' hl'
    have hperm : (v.roots ++ root :: held { c with
        refs := c.refs.eraseIdx j, values := c.values.eraseIdx i }).Perm
          (root :: held { c with refs := c.refs.eraseIdx j }) :=
      List.perm_middle.trans
          (.cons root (held_perm_of_value (c := { c with refs := c.refs.eraseIdx j }) hi).symm)
    exact keeps_change (c := { c with refs := c.refs.eraseIdx j }) hs rfl rfl hi
      (Value.leaves_makeTree (ho'.perm hperm) (hl'.perm hperm))
  | replaceRoot i j =>
    apply keeps_elim ho hs
    intro v hi
    apply keeps_spend ho hl hs
    rintro root rest rfl ho' hl'
    have hperm : (root :: (v.roots ++ held { c with
        refs := c.refs.eraseIdx j, values := c.values.eraseIdx i })).Perm
          (root :: held { c with refs := c.refs.eraseIdx j }) :=
      .cons root (held_perm_of_value (c := { c with refs := c.refs.eraseIdx j }) hi).symm
    exact keeps_change (c := { c with refs := c.refs.eraseIdx j }) hs rfl rfl hi
      (Value.leaves_replaceRoot (ho'.perm hperm) (hl'.perm hperm))
  | extractRoot i =>
    apply keeps_elim ho hs
    intro v hi
    exact keeps_change hs rfl rfl hi
      (Value.ends_extractRoot (ho.perm (held_perm_of_value hi).symm)).leaves
  | clear i =>
    apply keeps_elim ho hs
    intro v hi
    have hperm := (held_perm_of_value hi).symm
    exact keeps_change hs rfl rfl hi (Value.leaves_clear (ho.perm hperm) (hl.perm hperm))

end Client
end RopeStore
