import Mathlib.Data.List.Basic
import RopeStore.Proofs.Heap.Content
import RopeStore.Proofs.Heap.Release

/-!
# What any operation does to the nodes

* `Body.Becomes` : a buffer may get other bytes, and no other body changes;
* `Evolves h h' gone` : an operation that took `h` to `h'` destroyed the nodes `gone`, each once, kept
  all others and may have made new ones;
* `Makes m h held` : the operation `m` makes a reference, or faults without a trace; one lemma for
  each operation that makes one;
* `leaves_release_evolves` : what a release does to the nodes;
* `run_append_cases` : the two ends of an append where the counts are right, and `ends_append` : it
  changes no count.
-/

namespace RopeStore
variable {ρ : Type}

/-- A body and the same body later. -/
inductive Body.Becomes : Body ρ → Body ρ → Prop
  | same (b : Body ρ) : Becomes b b
  | refilled (tag : UInt8) (old new : List UInt8) : Becomes (.buffer tag old) (.buffer tag new)

namespace Body.Becomes
variable {a b c : Body ρ}

theorem trans (h₁ : a.Becomes b) (h₂ : b.Becomes c) : a.Becomes c := by
  cases h₁ with
  | same => exact h₂
  | refilled tag old new =>
    cases h₂ with
    | same => exact .refilled tag old new
    | refilled tag _ newer => exact .refilled tag old newer

/-- A body says farewell as the one it was. -/
theorem farewell?_eq (h : a.Becomes b) : b.farewell? = a.farewell? := by
  cases h <;> rfl

theorem isPermanent_iff (h : a.Becomes b) : a.IsPermanent ↔ b.IsPermanent := by
  cases h with
  | same => rfl
  | refilled tag old new =>
    constructor
    · rintro ⟨bytes, hb⟩
      cases hb
    · rintro ⟨bytes, hb⟩
      cases hb

end Body.Becomes

/-- The nodes in `gone` were destroyed, each of them once; all others are what they were, and what is
new is live. -/
structure Evolves (h h' : Heap ρ) (gone : List NodeId) : Prop where
  size : h.nodes.size ≤ h'.nodes.size
  nodup : gone.Nodup
  mortal : ∀ id ∈ gone, ∃ b, h.body? id = some b ∧ ¬ b.IsPermanent
  lost : ∀ id ∈ gone, h'.body? id = none
  kept : ∀ id b, id ∉ gone → h.body? id = some b → ∃ b', h'.body? id = some b' ∧ b.Becomes b'
  dead : ∀ id, id.index < h.nodes.size → h.body? id = none → h'.body? id = none
  made : ∀ id, h.nodes.size ≤ id.index → id.index < h'.nodes.size → ∃ b, h'.body? id = some b
  notices : h'.notices = h.notices ++ gone.filterMap fun id => (h.body? id).bind Body.farewell?

namespace Evolves
variable {h h' : Heap ρ} {gone : List NodeId} {id : NodeId} {n : Node ρ}

/-- Nothing but the body of one node changed, and that only as it may. -/
theorem put (hn : h.find? id = some n) {m : Node ρ} (hb : n.body.Becomes m.body) :
    Evolves h (h.put id m) [] where
  size := Nat.le_of_eq (Arena.size_set ..).symm
  nodup := List.nodup_nil
  mortal := by
    intro j hj
    cases hj
  lost := by
    intro j hj
    cases hj
  kept := by
    intro j b _ hj
    rw [Heap.body?_put hn]
    by_cases hid : j = id
    · rw [hid, Heap.body?_of_find? hn] at hj
      cases hj
      exact ⟨m.body, if_pos hid, hb⟩
    · exact ⟨b, by rw [if_neg hid, hj], .same b⟩
  dead := by
    intro j _ hj
    rw [Heap.body?_put hn, if_neg, hj]
    rintro rfl
    rw [Heap.body?_of_find? hn] at hj
    cases hj
  made := by
    intro j hle hlt
    rw [Heap.put, Arena.size_set] at hlt
    omega
  notices := (List.append_nil _).symm

theorem putRefs (hn : h.find? id = some n) (refs : RefCount) :
    Evolves h (h.put id { n with refs }) [] :=
  put hn (.same _)

theorem refl (h : Heap ρ) : Evolves h h [] where
  size := Nat.le_refl _
  nodup := List.nodup_nil
  mortal := by
    intro j hj
    cases hj
  lost := by
    intro j hj
    cases hj
  kept := fun j b _ hj => ⟨b, hj, .same b⟩
  dead := fun _ _ hj => hj
  made := by
    intro j hle hlt
    omega
  notices := (List.append_nil _).symm

theorem push (hev : Evolves h h' gone) (m : Node ρ) : Evolves h (h'.push m) gone := by
  have hsize : (h'.push m).nodes.size = h'.nodes.size + 1 := Heap.size_push ..
  have hold : ∀ j : NodeId, j.index < h'.nodes.size → (h'.push m).body? j = h'.body? j := by
    intro j hj
    rw [Heap.body?_push, if_neg]
    rintro rfl
    exact absurd hj (Nat.lt_irrefl _)
  have hlive : ∀ {j : NodeId} {b : Body ρ}, h.body? j = some b → j.index < h'.nodes.size := by
    intro j b hj
    exact Nat.lt_of_lt_of_le (Heap.lt_size_of_body? hj) hev.size
  constructor
  case size =>
    have := hev.size
    omega
  case nodup => exact hev.nodup
  case mortal => exact hev.mortal
  case lost =>
    intro j hj
    obtain ⟨b, hb, -⟩ := hev.mortal j hj
    rw [hold j (hlive hb), hev.lost j hj]
  case kept =>
    intro j b hj hb
    rw [hold j (hlive hb)]
    exact hev.kept j b hj hb
  case dead =>
    intro j hlt hj
    rw [hold j (Nat.lt_of_lt_of_le hlt hev.size)]
    exact hev.dead j hlt hj
  case made =>
    intro j hle hlt
    by_cases hnew : j.index < h'.nodes.size
    · rw [hold j hnew]
      exact hev.made j hle hnew
    · have hnext : j = h'.next := Heap.index_inj.1 (show j.index = h'.nodes.size by omega)
      exact ⟨m.body, by rw [Heap.body?_push, if_pos hnext]⟩
  case notices => exact hev.notices

theorem body?_eq_none_iff (hev : Evolves h h' gone) (hold : id.index < h.nodes.size) :
    h'.body? id = none ↔ h.body? id = none ∨ id ∈ gone := by
  constructor
  · intro hdead
    by_cases hgone : id ∈ gone
    · exact Or.inr hgone
    · refine Or.inl (Option.eq_none_iff_forall_ne_some.2 fun b hb => ?_)
      obtain ⟨b', hb', -⟩ := hev.kept id b hgone hb
      rw [hdead] at hb'
      cases hb'
  · intro hdead
    rcases hdead with hdead | hgone
    · exact hev.dead id hold hdead
    · exact hev.lost id hgone

theorem exists_becomes (hev : Evolves h h' gone) (hold : id.index < h.nodes.size) {b : Body ρ}
    (hb : h'.body? id = some b) : ∃ b', h.body? id = some b' ∧ b'.Becomes b := by
  have hlive := mt (hev.body?_eq_none_iff hold).2 (by simp [hb])
  rw [not_or] at hlive
  obtain ⟨b', hb'⟩ := Option.ne_none_iff_exists'.1 hlive.1
  obtain ⟨b'', hb'', hbecomes⟩ := hev.kept id b' hlive.2 hb'
  rw [hb] at hb''
  cases hb''
  exact ⟨b', hb', hbecomes⟩

end Evolves

/-- What was destroyed and nothing else. -/
theorem Lost.evolves {h h' : Heap ρ} {gone : List NodeId} (hl : Lost h h' gone) :
    Evolves h h' gone where
  size := Nat.le_of_eq hl.size.symm
  nodup := hl.nodup
  mortal := hl.mortal
  lost := fun id hid => by rw [hl.body, if_pos hid]
  kept := fun id b hid hb => ⟨b, by rw [hl.body, if_neg hid, hb], .same b⟩
  dead := by
    intro id _ hid
    rw [hl.body, hid]
    exact ite_self none
  made := by
    intro id hle hlt
    rw [hl.size] at hlt
    omega
  notices := hl.notices

/-! ## Operations that make a reference -/

/-- The operation `m` makes a reference, or faults without a trace. -/
def Makes (m : HeapM ρ NodeId) (h : Heap ρ) (held : List NodeId) : Prop :=
  Leaves m h (fun id h' => Owned h' (id :: held) ∧ Evolves h h' []) fun _ h' => h' = h

namespace Heap
variable {h : Heap ρ} {held : List NodeId} {id : NodeId} {n : Node ρ}

theorem makes_of_stores (ho : Owned h held) {m : HeapM ρ NodeId} {b : Body ρ} {data : List UInt8}
    (hrun : m.run h = .ok h.next (h.push ⟨.fresh, b⟩)) (hb : b.Stores data) : Makes m h held :=
  leaves_of_run_eq_ok hrun ⟨ho.pushStores hb, (Evolves.refl h).push _⟩

theorem makes_retain (ho : Owned h held) {m : HeapM ρ NodeId} (hn : h.find? id = some n)
    (hrun : m.run h = .ok id (h.put id { n with refs := ⟨n.refs.packed + RefCount.unit⟩ })) :
    Makes m h held :=
  leaves_of_run_eq_ok hrun ⟨ho.retain hn, Evolves.putRefs hn _⟩

theorem makes_newBuffer (ho : Owned h held) (length : Nat) : Makes (newBuffer length) h held := by
  obtain ⟨tag, hrun, htag, hfits⟩ := run_newBuffer length h
  exact makes_of_stores ho hrun (Body.stores_buffer htag (SizeClass.headerSize_le_sizeFor htag))

theorem makes_newLargeBuffer (ho : Owned h held) (length : Nat) :
    Makes (newLargeBuffer length) h held := by
  obtain ⟨tag, hrun, htag, hfits⟩ := run_newLargeBuffer length h
  exact makes_of_stores ho hrun (Body.stores_buffer htag (SizeClass.headerSize_le_sizeFor htag))

theorem makes_ofBytes (ho : Owned h held) {data : List UInt8} (hlen : data.length < wordBound) :
    Makes (ofBytes data) h held := by
  obtain ⟨b, hrun, hb⟩ := run_ofBytes hlen h
  exact makes_of_stores ho hrun hb

theorem makes_bufferWithExtra (ho : Owned h held) (data : List UInt8) (extra : Nat) :
    Makes (bufferWithExtra data extra) h held := by
  by_cases hlen : data.length ≤ SizeClass.maxLength
  · obtain ⟨b, hrun, hb⟩ := run_bufferWithExtra hlen extra h
    exact makes_of_stores ho hrun hb
  · exact leaves_of_run_eq_error (run_bufferWithExtra_of_lt (Nat.lt_of_not_le hlen) extra h) rfl

theorem makes_ofOwner (ho : Owned h held) {bytes : List UInt8} (hlen : bytes.length < wordBound)
    (owner : ρ) : Makes (ofOwner bytes owner) h held :=
  makes_of_stores ho (run_ofOwner bytes owner h) (Body.stores_external hlen (by simp))

theorem isImmortal_of_isPermanent (ho : Owned h held) (hn : h.find? id = some n)
    (hb : n.body.IsPermanent) : n.refs.isImmortal = true := by
  cases ho.counts hn with
  | immortal hrefs _ => exact hrefs
  | mortal _ _ hbody => exact absurd hb hbody

theorem makes_ofStatic (ho : Owned h held) {b : Body ρ} (hb : h.body? id = some b)
    (hperm : b.IsPermanent) : Makes (ofStatic id) h held := by
  obtain ⟨n, hn, rfl⟩ := body?_eq_some_iff.1 hb
  exact makes_retain ho hn (run_ofStatic hn (isImmortal_of_isPermanent ho hn hperm))

theorem makes_empty (ho : Owned h held) : Makes empty h held := by
  obtain ⟨n, hn, -, hbody⟩ := ho.empty
  exact makes_ofStatic ho (body?_of_find? hn) ⟨[], hbody⟩

theorem makes_clone (ho : Owned h held) (hn : h.find? id = some n) :
    Makes (do retain id; return id) h held :=
  makes_retain ho hn (run_bind_of_run_eq_ok (run_retain hn))

theorem makes_part (ho : Owned h held) (hn : h.find? id = some n) (pos count : Nat) :
    Makes (part id pos count) h held := by
  have hb := body?_of_find? hn
  by_cases hgood : 0 < count ∧ pos < n.body.length ∧ count ≤ n.body.length - pos
  · by_cases hall : count = n.body.length
    · exact makes_retain ho hn (run_part_of_all hn hgood hall)
    · obtain ⟨c, hc, hsound, hrun⟩ := (ho.intact hb).run_part_of_proper hgood hall
      refine leaves_of_run_eq_ok hrun ⟨?_, (Evolves.putRefs hc _).push _⟩
      have hbase := ho.retain hc
      have hsound : Body.Sound (h.put (h.base id)
          { c with refs := ⟨c.refs.packed + RefCount.unit⟩ }) _ :=
        hsound.of_body? fun child b _ hb => by rwa [body?_put_refs hc]
      rw [← next_put h (h.base id) { c with refs := ⟨c.refs.packed + RefCount.unit⟩ }]
      exact hbase.push hsound (by rintro ⟨bytes, hbytes⟩; cases hbytes)
  · exact leaves_of_run_eq_error (run_part_eq_error hb hgood) rfl

theorem makes_partOrCopy (ho : Owned h held) (hn : h.find? id = some n) (pos count : Nat) :
    Makes (partOrCopy id pos count) h held := by
  have hb := body?_of_find? hn
  by_cases hmany : count = n.body.length ∨ copyLimit < count
  · have hpart := makes_part ho hn pos count
    unfold Makes Leaves at hpart ⊢
    rwa [run_partOrCopy_of_part hb hmany]
  · by_cases hgood : 0 < count ∧ pos < n.body.length ∧ count ≤ n.body.length - pos
    · obtain ⟨data, tag, -, htag, hfits, hrun⟩ := (ho.intact hb).run_partOrCopy_of_copy hgood hmany
      exact makes_of_stores ho hrun (Body.stores_buffer htag hfits)
    · exact leaves_of_run_eq_error (run_partOrCopy_eq_error hb hgood) rfl

/-! ## Other operations -/

/-- What a release leaves, whether it faults or not. -/
theorem leaves_release_evolves (ho : Owned h (id :: held)) (hl : Legible h (id :: held)) :
    Leaves (release id) h (fun _ h' => Owned h' held ∧ ∃ gone, Evolves h h' gone)
      fun _ h' => Owned h' held ∧ ∃ gone, Evolves h h' gone := by
  have hevolves : ∀ h', (∃ gone, Lost h h' gone) ∧ Owned h' held →
      Owned h' held ∧ ∃ gone, Evolves h h' gone := by
    rintro h' ⟨⟨gone, hgone⟩, howned⟩
    exact ⟨howned, gone, hgone.evolves⟩
  exact (leaves_release ho hl).mono (fun _ h' => hevolves h') fun _ h' hafter => hevolves h' hafter.1

/-- An append writes nothing, or it fills up a buffer whose one owner is the caller. -/
theorem run_append_cases (ho : Owned h held) (hl : Legible h held) (hid : id ∈ held)
    (data : List UInt8) :
    (append id data).run h = .ok 0 h ∨
      ∃ n tag old count, h.find? id = some n ∧ n.body = .buffer tag old ∧
        SizeClass.isBuffer tag = true ∧ held.count id = 1 ∧ h.viewsOver id = 0 ∧
        (old ++ data.take count).length + SizeClass.headerSize ≤ SizeClass.sizeFor tag ∧
        (append id data).run h =
          .ok count (h.put id { n with body := .buffer tag (old ++ data.take count) }) := by
  obtain ⟨n, hn⟩ := ho.live hid
  have hsound := ho.sound_of_find? hn
  rcases append_cases hn (fun tag bytes hbody => by rwa [hbody] at hsound) with
    hnone | ⟨tag, old, hbody, hone, htag, hfits⟩
  · exact Or.inl (hnone data)
  · have howners : held.count id + h.viewsOver id = 1 := by
      cases ho.counts hn with
      | immortal hrefs _ =>
        rw [RefCount.isOne_of_isImmortal hrefs] at hone
        cases hone
      | mortal hrefs _ _ => rwa [hrefs, RefCount.isOne_ofNat_of_le (hl id), decide_eq_true_eq] at hone
    have hheld := List.count_pos_iff.2 hid
    obtain ⟨count, hcount, hrun⟩ := run_append_of_isOne hn hbody htag hfits hone data
    refine Or.inr ⟨n, tag, old, count, hn, hbody, htag, by omega, by omega, ?_, hrun⟩
    rw [List.length_append, List.length_take]
    omega

/-- A buffer that is written to has no view over it. -/
theorem ends_append (ho : Owned h held) (hl : Legible h held) (hid : id ∈ held)
    (data : List UInt8) : Ends (append id data) h fun _ h' => Owned h' held ∧ Evolves h h' [] := by
  rcases run_append_cases ho hl hid data with
    hrun | ⟨n, tag, old, count, hn, hbody, -, -, hviews, hfits, hrun⟩
  · exact ends_of_run_eq_ok hrun ⟨ho, Evolves.refl h⟩
  · refine ends_of_run_eq_ok hrun ⟨ho.refill hn hbody hviews hfits, Evolves.put hn ?_⟩
    rw [hbody]
    exact .refilled tag old _

theorem ends_newStatic (ho : Owned h held) {bytes : List UInt8} (hlen : bytes.length < wordBound) :
    Ends (newStatic bytes) h fun id h' => Owned h' held ∧ Evolves h h' [] ∧
      h'.body? id = some (.external bytes .permanent) := by
  refine ends_of_run_eq_ok (run_newStatic bytes h)
    ⟨ho.pushPermanent hlen, (Evolves.refl h).push _, ?_⟩
  rw [body?_push, if_pos rfl]

end Heap
end RopeStore
