import Mathlib.Data.List.Basic
import Mathlib.Data.List.Nodup
import RopeStore.Proofs.Deferral.Shown
import RopeStore.Proofs.Sampling.Sampler

/-!
# Records outlive their values

* `Sampler.Sound` : what every act of a client that samples its values keeps. Each record there ever was
  belongs to one tracked value, or to one that is not tracked any more; and no two records that were not
  dropped lie at the same address;
* `Sound.deed`, `Sound.trackValue`, `Sound.untrackValue`, `Sound.updateAt`, `Sound.queueStep` : the acts;
* `Sampler.Leads s v t` : the slot of `v` leads to the record of `t`, which is there;
* `Sampler.Outlives s t r` : the record of `t` is still what it was, `r`, and snapshots see it as long as
  they have to;
* `Sound.tracked_or_not`, `Sound.sample_ne`, `Sound.exists_untrack` : what slots say, and how it ends;
* `records_outlive_values` : what holds after everything that the client can do.
-/

namespace RopeStore

/-! ## Acts of a session -/

namespace Deferral.Session
variable {α : Type} {c c' : Chronicle α} {act : Act α} {h : EntryId} {p : EntryId × α}

theorem Notes.mem_handles (hn : Notes c act c') (hh : h ∈ c.handles) (hact : act ≠ .deleteHandle h) :
    h ∈ c'.handles := by
  cases hn with
  | same => exact hh
  | opens e => exact hh
  | makes h' payload => exact List.mem_cons_of_mem _ hh
  | deletes h' ps =>
    have hne : h ≠ h' := fun heq => hact (congrArg Act.deleteHandle heq.symm)
    exact (List.mem_erase_of_ne hne).2 hh
  | closes e ps => exact hh

theorem Notes.mem_made (hn : Notes c act c') (hp : p ∈ c'.made) :
    p ∈ c.made ∨ act = .newHandle p.2 := by
  cases hn with
  | same => exact .inl hp
  | opens e => exact .inl hp
  | makes h' payload =>
    rcases List.mem_cons.1 hp with rfl | hp
    · exact .inr rfl
    · exact .inl hp
  | deletes h' ps => exact .inl hp
  | closes e ps => exact .inl hp

end Deferral.Session

namespace Sampling.Sampler
open Deferral (EntryId Session Queue Chronicle Kept Holds Pending isHandle)
variable {ρ β : Type} {s : Sampler ρ β} {i : Nat} {v : Value} {t t' : Tag} {address : UInt64}

/-! ## What every act keeps -/

/-- The slots, the records and the queue are in step. -/
structure Sound (s : Sampler ρ β) : Prop where
  tagged : Tagged s.client s.tags
  session : s.session.Sound
  /-- What belongs to a value belongs to no other, and is not finished. -/
  shares : (s.tags.reduceOption ++ s.finished.map (·.1)).Perm s.placed
  apart : (s.placed.map (·.record)).Nodup
  given : ∀ t ∈ s.placed, (t.handle, .inl t.record) ∈ s.session.chronicle.made ∧ Fits t.address ∧
    (s.registry.find? t.record).isSome
  owners : ∀ p ∈ s.session.chronicle.made, ∀ id, p.2 = .inl id →
    ∃ t ∈ s.placed, t.handle = p.1 ∧ t.record = id
  /-- The memory gives no place away twice. -/
  spots : ∀ t ∈ s.placed, ∀ t' ∈ s.placed, ¬ s.session.chronicle.IsDropped t.handle →
    ¬ s.session.chronicle.IsDropped t'.handle → t.address = t'.address → t = t'
  live : ∀ t ∈ s.tags.reduceOption, t.handle ∈ s.session.chronicle.handles
  ended : ∀ p ∈ s.finished, p.1.handle ∈ s.session.chronicle.deleted ∧
    s.registry.find? p.1.record = some p.2

theorem sound_start (number : Nat) (kind : LockKind) : (start number kind : Sampler ρ β).Sound where
  tagged := ⟨by simp [start, Client.initial], .nil⟩
  session := Deferral.Session.sound_start number kind
  shares := .refl _
  apart := List.nodup_nil
  given := by simp [start]
  owners := by simp [start, Session.start, Chronicle.empty]
  spots := by simp [start]
  live := by simp [start]
  ended := by simp [start]

namespace Sound

theorem mem_placed_of_tag (hs : s.Sound) (ht : t ∈ s.tags.reduceOption) : t ∈ s.placed :=
  hs.shares.mem_iff.1 (List.mem_append_left _ ht)

theorem mem_placed_of_finished (hs : s.Sound) {p : Tag × Record} (hp : p ∈ s.finished) :
    p.1 ∈ s.placed :=
  hs.shares.mem_iff.1 (List.mem_append_right _ (List.mem_map_of_mem hp))

theorem eq_of_record (hs : s.Sound) (ht : t ∈ s.placed) (ht' : t' ∈ s.placed)
    (heq : t.record = t'.record) : t = t' :=
  List.inj_on_of_nodup_map hs.apart ht ht' heq

theorem eq_of_handle (hs : s.Sound) (ht : t ∈ s.placed) (ht' : t' ∈ s.placed)
    (heq : t.handle = t'.handle) : t = t' := by
  obtain ⟨xs, lost, hk, -⟩ := hs.session
  have hpair := List.inj_on_of_nodup_map hk.stock.keys (hs.given t ht).1 (hs.given t' ht').1 heq
  exact hs.eq_of_record ht ht' (Sum.inl.inj (Prod.mk.inj hpair).2)

theorem nodup_placed (hs : s.Sound) : s.placed.Nodup := hs.apart.of_map

theorem tag_ne_finished (hs : s.Sound) (ht : t ∈ s.tags.reduceOption) {p : Tag × Record}
    (hp : p ∈ s.finished) : t ≠ p.1 := by
  have hnodup := hs.shares.nodup_iff.2 hs.nodup_placed
  exact fun heq => (List.nodup_append.1 hnodup).2.2 t ht p.1 (List.mem_map_of_mem hp) heq

theorem not_mem_tags_set (hs : s.Sound) (htag : s.tags[i]? = some (some t)) :
    t ∉ (s.tags.set i none).reduceOption := by
  have hnodup := (List.nodup_append.1 (hs.shares.nodup_iff.2 hs.nodup_placed)).1
  exact (List.nodup_cons.1 ((reduceOption_perm_set htag).nodup_iff.1 hnodup)).1

theorem index_eq (hs : s.Sound) {j : Nat} (hi : s.tags[i]? = some (some t))
    (hj : s.tags[j]? = some (some t)) : i = j := by
  by_contra hne
  have hother : (s.tags.set i none)[j]? = some (some t) := by rw [List.getElem?_set_ne hne, hj]
  exact hs.not_mem_tags_set hi (List.reduceOption_mem_iff.2 (List.mem_of_getElem? hother))

theorem undropped_of_tag (hs : s.Sound) (ht : t ∈ s.tags.reduceOption) :
    ¬ s.session.chronicle.IsDropped t.handle := by
  obtain ⟨xs, lost, hk, -⟩ := hs.session
  exact hk.undropped_of_live (hs.live t ht)

/-- A record that was not dropped is found at its address. -/
theorem recordAt_eq (hs : s.Sound) (ht : t ∈ s.placed)
    (hd : ¬ s.session.chronicle.IsDropped t.handle) : s.recordAt t.address = some t.record := by
  rw [recordAt]
  cases hfind : s.placed.find? fun t' => t'.address = t.address ∧
      t'.handle ∉ s.session.chronicle.dropped.map (·.1) with
  | none =>
    have hnone := List.find?_eq_none.1 hfind t ht
    exact absurd (decide_eq_true ⟨rfl, hd⟩) hnone
  | some t' =>
    have hfound := List.find?_some hfind
    obtain ⟨haddress, hd'⟩ := of_decide_eq_true hfound
    rw [hs.spots t' (List.mem_of_find?_eq_some hfind) t ht hd' hd haddress, Option.map_some]

theorem mem_tags (htag : s.tags[i]? = some (some t)) : t ∈ s.tags.reduceOption :=
  List.reduceOption_mem_iff.2 (List.mem_of_getElem? htag)

theorem names (hs : s.Sound) (hi : s.client.values[i]? = some v) {tag : Option Tag}
    (htag : s.tags[i]? = some tag) (htree : v.isTree = true) :
    v.Names (tag.map (·.address)) := by
  refine hs.tagged.names hi htag htree fun t ht => ?_
  cases ht
  exact (hs.given t (hs.mem_placed_of_tag (mem_tags htag))).2.1

/-! ### The acts -/

theorem deed (hs : s.Sound) {d : Deed ρ} (hd : d.spares s.tags = true) :
    Sound { s with client := s.client.exec d, tags := retag s.tags (s.client.exec d).values.length d } := by
  have htags := reduceOption_retag hd (s.client.exec d).values.length
  exact { hs with
    tagged := hs.tagged.exec hd
    shares := htags ▸ hs.shares
    live := fun t ht => hs.live t (htags ▸ ht) }

/-- An act on the queue that leaves the handles of records alone. -/
theorem queueStep (hs : s.Sound) {act : Session.Act (RecordId ⊕ β)}
    (hnew : ∀ id, act ≠ .newHandle (.inl id)) (hspared : ∀ t ∈ s.placed, act ≠ .deleteHandle t.handle) :
    Sound { s with session := s.session.step act } := by
  have hlater := Session.later_step s.session act
  exact { hs with
    session := hs.session.step act
    given := fun t ht => ⟨hlater.made (hs.given t ht).1, (hs.given t ht).2⟩
    owners := by
      intro p hp id hid
      rcases (s.session.notes_step act).mem_made hp with hp | hact
      · exact hs.owners p hp id hid
      · exact absurd (hid ▸ hact) (hnew id)
    spots := fun t ht t' ht' hd hd' => hs.spots t ht t' ht' (fun h => hd (hlater.isDropped h))
      fun h => hd' (hlater.isDropped h)
    live := fun t ht => (s.session.notes_step act).mem_handles (hs.live t ht)
      (hspared t (hs.mem_placed_of_tag ht))
    ended := fun p hp => ⟨hlater.mem_deleted (hs.ended p hp).1, (hs.ended p hp).2⟩ }

theorem trackValue (hs : s.Sound) (hi : s.client.values[i]? = some v)
    (htag : s.tags[i]? = some none) (hfits : Fits address) (hfree : s.recordAt address = none)
    (method : Method) : (s.trackValue i v method address).Sound := by
  have hv := hs.tagged.formed v (List.mem_of_getElem? hi)
  rcases track_cases hv s.client.heap method (Sum.inl : RecordId → RecordId ⊕ β) (fun _ => address)
    ⟨s.registry, s.session.queue⟩ with ⟨fault, hrun⟩ | hcase
  · rw [Sampler.trackValue, hrun]
    exact hs
  obtain ⟨slot, root, size, rfl, hsize, hrun⟩ := hcase
  rw [Sampler.trackValue, hrun]
  let tag : Tag := ⟨⟨s.session.queue.number, s.session.queue.cells.size, false⟩,
    ⟨s.registry.records.size⟩, address⟩
  have hlater : s.session.chronicle.Later (s.session.chronicle.makes tag.handle (.inl tag.record)) :=
    .makes ..
  -- The record has a number of its own.
  have hnew : ∀ t ∈ s.placed, t.record ≠ tag.record := by
    intro t ht heq
    have hlt := Registry.index_lt_of_isSome (hs.given t ht).2.2
    rw [heq] at hlt
    exact Nat.lt_irrefl _ hlt
  -- No record that is still there lies where the new one does.
  have hfree' : ∀ t ∈ s.placed, ¬ s.session.chronicle.IsDropped t.handle → t.address ≠ address := by
    rintro t ht hd rfl
    rw [hs.recordAt_eq ht hd] at hfree
    cases hfree
  have hperm := reduceOption_set_perm (t := tag) htag
  constructor
  case tagged =>
    refine hs.tagged.set ?_ rfl
    show (address ||| 1) &&& 1 = 1
    rw [← UInt64.toNat_inj]
    simp
  case session => exact hs.session.step (.newHandle (.inl tag.record))
  case shares => exact (hperm.append_right _).trans (hs.shares.cons tag)
  case apart =>
    refine List.nodup_cons.2 ⟨fun hmem => ?_, hs.apart⟩
    obtain ⟨t, ht, heq⟩ := List.mem_map.1 hmem
    exact hnew t ht heq
  case given =>
    intro t ht
    rcases List.mem_cons.1 ht with rfl | ht
    · refine ⟨List.mem_cons_self, hfits, ?_⟩
      show ((Arena.push _ _).get? _).isSome
      rw [Arena.get?_push_size]
      rfl
    · obtain ⟨hmade, hfits', hsome⟩ := hs.given t ht
      refine ⟨hlater.made hmade, hfits', ?_⟩
      rwa [Registry.find?_push hsome]
  case owners =>
    intro p hp id hid
    rcases List.mem_cons.1 hp with rfl | hp
    · exact ⟨tag, List.mem_cons_self, rfl, Sum.inl.inj hid⟩
    · obtain ⟨t, ht, hboth⟩ := hs.owners p hp id hid
      exact ⟨t, List.mem_cons_of_mem _ ht, hboth⟩
  case spots =>
    intro t ht t' ht' hd hd' heq
    rcases List.mem_cons.1 ht with rfl | ht <;> rcases List.mem_cons.1 ht' with rfl | ht'
    · rfl
    · exact absurd heq.symm (hfree' t' ht' hd')
    · exact absurd heq (hfree' t ht hd)
    · exact hs.spots t ht t' ht' hd hd' heq
  case live =>
    intro t ht
    rcases List.mem_cons.1 (hperm.mem_iff.1 ht) with rfl | ht
    · exact List.mem_cons_self
    · exact List.mem_cons_of_mem _ (hs.live t ht)
  case ended =>
    intro p hp
    obtain ⟨hdeleted, hfound⟩ := hs.ended p hp
    refine ⟨hdeleted, ?_⟩
    rw [Registry.find?_push (by rw [hfound]; rfl), hfound]

theorem run_untrack (hs : s.Sound) (hi : s.client.values[i]? = some v)
    (htag : s.tags[i]? = some (some t)) :
    ∃ root taken q', v = .tree (t.address ||| 1) root ∧
      (Queue.delete t.handle).run s.session.queue = .ok taken q' ∧
      (untrack v t.handle t.address).run s.session.queue =
        .ok (.ok (.tree Value.nullSlot root), taken) q' := by
  obtain ⟨root, rfl, hv⟩ := hs.tagged.exists_tree hi htag
  have hnames := hs.names hi htag (Value.isTree_tree hv)
  obtain ⟨xs, lost, hk, -⟩ := hs.session
  obtain ⟨taken, q', hrun, -⟩ := (hk.ends_delete (hs.live t (mem_tags htag))).run_eq_ok
  exact ⟨root, taken, q', rfl, hrun, by rw [Sampling.run_untrack, hrun, finish_eq_ok hnames]⟩

theorem untrackValue (hs : s.Sound) (hi : s.client.values[i]? = some v)
    (htag : s.tags[i]? = some (some t)) : (s.untrackValue i v t).Sound := by
  obtain ⟨root, taken, q', rfl, hdelete, hrun⟩ := hs.run_untrack hi htag
  have hmem := mem_tags htag
  have hlive := hs.live t hmem
  obtain ⟨r, hr⟩ := Option.isSome_iff_exists.1 (hs.given t (hs.mem_placed_of_tag hmem)).2.2
  have hlater := Session.later_step s.session (.deleteHandle t.handle)
  have hstep : s.session.step (.deleteHandle t.handle) = { s.session with
      queue := q'
      chronicle := (s.session.chronicle.deletes t.handle).drops (taken.toList.map (t.handle, ·)) } := by
    rw [Session.step, if_pos hlive, hdelete]
    rfl
  have hsession := hs.session.step (.deleteHandle t.handle)
  have hperm := reduceOption_perm_set htag
  have hkept : ∀ t' ∈ (s.tags.set i none).reduceOption, t' ∈ s.tags.reduceOption ∧ t' ≠ t := by
    intro t' ht'
    exact ⟨hperm.mem_iff.2 (List.mem_cons_of_mem _ ht'),
      fun heq => hs.not_mem_tags_set htag (heq ▸ ht')⟩
  rw [Sampler.untrackValue, hrun, hr]
  rw [hstep] at hlater hsession
  constructor
  case tagged => exact hs.tagged.set rfl rfl
  case session => exact hsession
  case shares =>
    exact List.perm_middle.trans ((hperm.symm.append_right _).trans hs.shares)
  case apart => exact hs.apart
  case given => exact fun t' ht' => ⟨hlater.made (hs.given t' ht').1, (hs.given t' ht').2⟩
  case owners => exact hs.owners
  case spots =>
    exact fun t₁ h₁ t₂ h₂ hd₁ hd₂ => hs.spots t₁ h₁ t₂ h₂ (fun h => hd₁ (hlater.isDropped h))
      fun h => hd₂ (hlater.isDropped h)
  case live =>
    intro t' ht'
    obtain ⟨hin, hne⟩ := hkept t' ht'
    have hhandle : t'.handle ≠ t.handle := fun heq => hne
      (hs.eq_of_handle (hs.mem_placed_of_tag hin) (hs.mem_placed_of_tag hmem) heq)
    exact (List.mem_erase_of_ne hhandle).2 (hs.live t' hin)
  case ended =>
    intro p hp
    rcases List.mem_cons.1 hp with rfl | hp
    · obtain ⟨xs, lost, hk, -⟩ := hs.session
      exact ⟨Chronicle.mem_deleted.2 ⟨List.mem_append_right _ List.mem_cons_self,
        hk.isHandle_of_live hlive⟩, hr⟩
    · exact ⟨hlater.mem_deleted (hs.ended p hp).1, (hs.ended p hp).2⟩

/-- What the slot of a value leads to is the record of its tag. -/
theorem updateAt (hs : s.Sound) (ht : t ∈ s.tags.reduceOption) (method : Method) (size : Nat) :
    (s.updateAt t.address method size).Sound := by
  have hplaced := hs.mem_placed_of_tag ht
  rw [Sampler.updateAt, hs.recordAt_eq hplaced (hs.undropped_of_tag ht), Option.elim_some]
  have hleaves := leaves_onRecord s.registry t.record (Record.update method size)
  have hafter : ∀ registry, s.registry.OnlyAt registry t.record → Sound { s with registry } := by
    intro registry hat
    exact { hs with
      given := fun t' ht' =>
        ⟨(hs.given t' ht').1, (hs.given t' ht').2.1, hat.stays _ (hs.given t' ht').2.2⟩
      ended := by
        intro p hp
        refine ⟨(hs.ended p hp).1, (hat.others _ fun heq => ?_).trans (hs.ended p hp).2⟩
        exact hs.tag_ne_finished ht hp
          (hs.eq_of_record hplaced (hs.mem_placed_of_finished hp) heq.symm) }
  unfold Leaves at hleaves
  split at hleaves <;> rename_i hrun <;> rw [hrun] <;> exact hafter _ hleaves

theorem exists_tag_of_sample (hs : s.Sound) (hi : s.client.values[i]? = some v)
    (hsample : v.sample = .ok (some address)) :
    ∃ t, s.tags[i]? = some (some t) ∧ t.address = address := by
  obtain ⟨tag, htag, -⟩ := hs.tagged.exists_tag hi
  have htree : v.isTree = true := by
    cases v with
    | short control payload => cases hsample
    | tree slot root =>
      by_contra hshort
      rw [Value.sample, Value.slot, if_neg hshort] at hsample
      cases hsample
  have hread := (hs.names hi htag htree).sample
  rw [hsample] at hread
  obtain ⟨t, rfl, haddress⟩ := Option.map_eq_some_iff.1 (Except.ok.inj hread).symm
  exact ⟨t, htag, haddress⟩

theorem step (hs : s.Sound) (act : Act ρ β) : (s.step act).Sound := by
  cases act with
  | deed d =>
    rw [Sampler.step]
    split
    · exact hs.deed (by assumption)
    · exact hs
  | track i method address =>
    rw [Sampler.step]
    split
    · rename_i hcond
      obtain ⟨htag, hfits, hfree⟩ := hcond
      cases hi : s.client.values[i]? with
      | none => exact hs
      | some v => exact hs.trackValue hi htag hfits hfree method
    · exact hs
  | untrack i =>
    rw [Sampler.step]
    cases hi : s.client.values[i]? with
    | none => exact hs
    | some v =>
      rw [Option.elim_some]
      cases htag : s.tags[i]?.join with
      | none => exact hs
      | some t => exact hs.untrackValue hi (Option.join_eq_some_iff.1 htag)
  | update i method size =>
    rw [Sampler.step]
    split
    · rename_i address hread
      obtain ⟨v, hi, hsample⟩ := Option.map_eq_some_iff.1 hread
      obtain ⟨t, htag, rfl⟩ := hs.exists_tag_of_sample hi hsample
      exact hs.updateAt (mem_tags htag) method size
    · exact hs
  | openSnapshot => exact hs.queueStep (by simp) (by simp)
  | dropSnapshot e => exact hs.queueStep (by simp) (by simp)
  | newHandle payload => exact hs.queueStep (by simp) (by simp)
  | deleteHandle h =>
    rw [Sampler.step]
    split
    · exact hs
    · rename_i hspared
      refine hs.queueStep (by simp) fun t ht heq => hspared ⟨t, ht, ?_⟩
      exact (Session.Act.deleteHandle.inj heq).symm

theorem run (hs : s.Sound) (acts : List (Act ρ β)) : (s.run acts).Sound := by
  induction acts generalizing s with
  | nil => exact hs
  | cons act rest ih => exact ih (hs.step act)

end Sound

/-! ## What follows -/

/-- The slot of the tree `v` leads to the record of `t`, which is there. -/
structure Leads (s : Sampler ρ β) (v : Value) (t : Tag) : Prop where
  sampled : v.isSampled = .ok true
  sample : v.sample = .ok (some t.address)
  found : s.recordAt t.address = some t.record
  record : ∃ r, s.registry.find? t.record = some r
  owned : Holds s.session.queue t.handle (.inl t.record)
  undropped : ¬ s.session.chronicle.IsDropped t.handle

/-- The record of `t` is `r`. A snapshot sees it if it was made before the handle was deleted. The
record stays as long as there are such snapshots, and then it is dropped once. -/
structure Outlives (s : Sampler ρ β) (t : Tag) (r : Record) : Prop where
  unchanged : s.registry.find? t.record = some r
  shown : ∀ e ∈ s.session.chronicle.snapshots, ∃ records,
    (Queue.inspectDeleted e Sum.getLeft?).run s.session.queue = .ok records s.session.queue ∧
      (t.record ∈ records ↔ [e, t.handle].Sublist s.session.chronicle.events)
  stays : s.session.chronicle.IsWatched t.handle →
    Holds s.session.queue t.handle (.inl t.record) ∧ ¬ s.session.chronicle.IsDropped t.handle
  goes : s.session.chronicle.deleted.length < wordBound →
    ¬ s.session.chronicle.IsWatched t.handle → s.session.chronicle.IsDropped t.handle
  once : (s.session.chronicle.dropped.map (·.1)).count t.handle ≤ 1

namespace Sound

theorem holds_of_undropped (hs : s.Sound) (ht : t ∈ s.placed)
    (hd : ¬ s.session.chronicle.IsDropped t.handle) :
    Holds s.session.queue t.handle (.inl t.record) := by
  obtain ⟨xs, lost, hk, -⟩ := hs.session
  refine (hk.stock.held _ (hs.given t ht).1).resolve_left fun hdropped => hd ?_
  exact List.mem_map.2 ⟨_, hdropped, rfl⟩

theorem leads (hs : s.Sound) (hi : s.client.values[i]? = some v)
    (htag : s.tags[i]? = some (some t)) : s.Leads v t := by
  have hmem := mem_tags htag
  have hplaced := hs.mem_placed_of_tag hmem
  have hd := hs.undropped_of_tag hmem
  obtain ⟨root, rfl, hv⟩ := hs.tagged.exists_tree hi htag
  have hnames := hs.names hi htag (Value.isTree_tree hv)
  exact ⟨hnames.isSampled, hnames.sample, hs.recordAt_eq hplaced hd,
    Option.isSome_iff_exists.1 (hs.given t hplaced).2.2, hs.holds_of_undropped hplaced hd, hd⟩

/-- A tree that is not tracked is not sampled. -/
theorem tracked_or_not (hs : s.Sound) (hi : s.client.values[i]? = some v) (htree : v.isTree = true) :
    (∃ t, s.tags[i]? = some (some t) ∧ s.Leads v t) ∨
      s.tags[i]? = some none ∧ v.isSampled = .ok false ∧ v.sample = .ok none := by
  obtain ⟨tag, htag, -⟩ := hs.tagged.exists_tag hi
  cases tag with
  | some t => exact .inl ⟨t, htag, hs.leads hi htag⟩
  | none =>
    have hnames := hs.names hi htag htree
    exact .inr ⟨htag, hnames.isSampled, hnames.sample⟩

theorem sample_ne (hs : s.Sound) {j : Nat} {w : Value} (hne : i ≠ j)
    (hi : s.client.values[i]? = some v) (hj : s.client.values[j]? = some w)
    (hv : v.sample = .ok (some address)) : w.sample ≠ .ok (some address) := by
  intro hw
  obtain ⟨t, htag, rfl⟩ := hs.exists_tag_of_sample hi hv
  obtain ⟨t', htag', haddress⟩ := hs.exists_tag_of_sample hj hw
  have hmem := mem_tags htag
  have hmem' := mem_tags htag'
  -- Neither record was dropped, so they cannot lie at one address.
  obtain rfl := hs.spots t' (hs.mem_placed_of_tag hmem') t (hs.mem_placed_of_tag hmem)
    (hs.undropped_of_tag hmem') (hs.undropped_of_tag hmem) haddress
  exact hne (hs.index_eq htag htag')

/-- A value that is untracked is not sampled, and its record is kept in mind as it is then. -/
theorem exists_untrack (hs : s.Sound) (hi : s.client.values[i]? = some v)
    (htag : s.tags[i]? = some (some t)) :
    ∃ w taken q' r, (untrack v t.handle t.address).run s.session.queue = .ok (.ok w, taken) q' ∧
      w.isSampled = .ok false ∧ s.registry.find? t.record = some r ∧
      (s.step (.untrack i)).finished = (t, r) :: s.finished := by
  obtain ⟨root, taken, q', rfl, -, hrun⟩ := hs.run_untrack hi htag
  obtain ⟨r, hr⟩ := Option.isSome_iff_exists.1 (hs.given t (hs.mem_placed_of_tag (mem_tags htag))).2.2
  refine ⟨_, taken, q', r, hrun, (Value.names_ofTree root).isSampled, hr, ?_⟩
  rw [Sampler.step, hi, htag, Option.elim_some, Option.join_some, Option.elim_some,
    Sampler.untrackValue, hrun, hr]
  rfl

/-- A snapshot that was made before the handle of a record was deleted sees the record. -/
theorem exists_inspectDeleted (hs : s.Sound) (ht : t ∈ s.placed)
    (hdeleted : t.handle ∈ s.session.chronicle.deleted) {e : EntryId}
    (he : e ∈ s.session.chronicle.snapshots) :
    ∃ records, (Queue.inspectDeleted e Sum.getLeft?).run s.session.queue =
        .ok records s.session.queue ∧
      (t.record ∈ records ↔ [e, t.handle].Sublist s.session.chronicle.events) := by
  obtain ⟨xs, lost, hk, -⟩ := hs.session
  obtain ⟨shown, hshown, hheld, hpayloads⟩ := (hk.observed he).payloads
  refine ⟨_, hpayloads Sum.getLeft?, ?_⟩
  have hmem : t.handle ∈ shown.map (·.1) ↔ [e, t.handle].Sublist s.session.chronicle.events := by
    rw [hshown, Chronicle.mem_deletedSince, and_iff_right hdeleted]
  rw [← hmem, List.mem_filterMap, List.mem_map]
  constructor
  · rintro ⟨p, hp, hleft⟩
    -- No other handle owns this record.
    obtain ⟨t', ht', hhandle, hrecord⟩ :=
      hs.owners p (hheld p hp).1 t.record (Sum.getLeft?_eq_some_iff.1 hleft)
    obtain rfl := hs.eq_of_record ht' ht hrecord
    exact ⟨p, hp, hhandle.symm⟩
  · rintro ⟨p, hp, hhandle⟩
    have hpair := List.inj_on_of_nodup_map hk.stock.keys (hheld p hp).1 (hs.given t ht).1 hhandle
    exact ⟨p, hp, by rw [hpair]; rfl⟩

theorem outlives (hs : s.Sound) {p : Tag × Record} (hp : p ∈ s.finished) : s.Outlives p.1 p.2 := by
  obtain ⟨hdeleted, hfound⟩ := hs.ended p hp
  have hplaced := hs.mem_placed_of_finished hp
  obtain ⟨xs, lost, hk, hlost⟩ := hs.session
  constructor
  case unchanged => exact hfound
  case shown => exact fun e he => hs.exists_inspectDeleted hplaced hdeleted he
  case stays =>
    intro hw
    have hd := hk.undropped_of_watched hdeleted hw
    exact ⟨hs.holds_of_undropped hplaced hd, hd⟩
  case goes =>
    intro hword hw
    obtain ⟨rfl, -⟩ := hlost.resolve_right (Nat.not_le_of_lt hword)
    by_contra hd
    exact hw (hk.watched_of_undropped hdeleted hd List.not_mem_nil)
  case once => exact List.nodup_iff_count_le_one.1 hk.stock.once p.1.handle

end Sound

theorem finished_suffix_step (s : Sampler ρ β) (act : Act ρ β) :
    s.finished <:+ (s.step act).finished := by
  cases act with
  | deed d =>
    rw [Sampler.step]
    split <;> exact List.suffix_rfl
  | track i method address =>
    rw [Sampler.step]
    split
    · cases s.client.values[i]? with
      | none => exact List.suffix_rfl
      | some v =>
        rw [Option.elim_some, Sampler.trackValue]
        split <;> exact List.suffix_rfl
    · exact List.suffix_rfl
  | untrack i =>
    rw [Sampler.step]
    cases s.client.values[i]? with
    | none => exact List.suffix_rfl
    | some v =>
      cases s.tags[i]?.join with
      | none => exact List.suffix_rfl
      | some t =>
        rw [Option.elim_some, Option.elim_some, Sampler.untrackValue]
        split
        · exact List.suffix_append ..
        · exact List.suffix_rfl
  | update i method size =>
    rw [Sampler.step]
    split
    · rw [Sampler.updateAt]
      cases s.recordAt _ with
      | none => exact List.suffix_rfl
      | some id =>
        rw [Option.elim_some]
        split <;> exact List.suffix_rfl
    · exact List.suffix_rfl
  | openSnapshot => exact List.suffix_rfl
  | dropSnapshot e => exact List.suffix_rfl
  | newHandle payload => exact List.suffix_rfl
  | deleteHandle h =>
    rw [Sampler.step]
    split <;> exact List.suffix_rfl

/-- **Whatever a client does that tracks values, untracks each with what tracking gave it, and leaves
tracked values in place: a tree is sampled exactly while it is tracked, and its slot leads to a record
that was not dropped and that no other value leads to. The clone of a tree is not sampled, and a tree
with another root is sampled as before. Nothing goes wrong where a value is untracked. From then on its
record does not change; it is seen by exactly the snapshots that were made before, is dropped when the
last of these goes, or at once if there is none, and is dropped once.** Only a count of handles that is
full, after as many deletions as a word can count, can keep a record from being dropped. -/
theorem records_outlive_values (number : Nat) (kind : LockKind) (acts : List (Act ρ β)) :
    let s : Sampler ρ β := (start number kind).run acts
    (∀ (i : Nat) v, s.client.values[i]? = some v → v.isTree = true →
      (∃ t, s.tags[i]? = some (some t) ∧ s.Leads v t) ∨
        s.tags[i]? = some none ∧ v.isSampled = .ok false ∧ v.sample = .ok none) ∧
    (∀ (i j : Nat) v w address, i ≠ j → s.client.values[i]? = some v → s.client.values[j]? = some w →
      v.sample = .ok (some address) → w.sample ≠ .ok (some address)) ∧
    (∀ i, ∃ new, (s.step (.deed (.act (.cloneValue i)))).client.values = s.client.values ++ new ∧
      ∀ v ∈ new, v.isTree = true → v.isSampled = .ok false) ∧
    (∀ i j, (s.step (.deed (.act (.replaceRoot i j)))).client.values.map Value.sample =
      s.client.values.map Value.sample) ∧
    (∀ (i : Nat) v t, s.client.values[i]? = some v → s.tags[i]? = some (some t) →
      ∃ w taken q' r,
        (untrack v t.handle t.address).run s.session.queue = .ok (.ok w, taken) q' ∧
        w.isSampled = .ok false ∧ s.registry.find? t.record = some r ∧
        (s.step (.untrack i)).finished = (t, r) :: s.finished) ∧
    (∀ act, s.finished <:+ (s.step act).finished) ∧ (∀ p ∈ s.finished, s.Outlives p.1 p.2) ∧
    (s.session.chronicle.deleted.length < wordBound → s.session.faults = []) := by
  intro s
  have hs : s.Sound := (sound_start number kind).run acts
  refine ⟨fun i v hi htree => hs.tracked_or_not hi htree,
    fun i j v w address hne hi hj hv => hs.sample_ne hne hi hj hv, fun i => ?_, fun i j => ?_,
    fun i v t hi htag => hs.exists_untrack hi htag, s.finished_suffix_step,
    fun p hp => hs.outlives hp, fun hword => ?_⟩
  · have hspares : Deed.spares s.tags (.act (.cloneValue i) : Deed ρ) = true := rfl
    rw [Sampler.step, if_pos hspares]
    exact hs.tagged.cloneValue i
  · have hspares : Deed.spares s.tags (.act (.replaceRoot i j) : Deed ρ) = true := rfl
    rw [Sampler.step, if_pos hspares]
    exact hs.tagged.replaceRoot i j
  · obtain ⟨xs, lost, hk, hlost⟩ := hs.session
    exact (hlost.resolve_right (Nat.not_le_of_lt hword)).2

/-- The snapshot was made while the tree was tracked: the record goes with it, and not before. -/
theorem records_outlive_values_watched :
    let s : Sampler Unit Unit := (start 0 .checking).run [.deed (.act (.ofBytes ⟨[1, 2, 3], by decide⟩)),
      .deed (.act (.treeValue 0)), .track 0 .constructorTree 112, .openSnapshot,
      .deed (.act (.cloneValue 0)), .untrack 0]
    s.client.values.map Value.sample = [.ok none, .ok none] ∧ s.recordAt 112 = some ⟨0⟩ ∧
      (∃ p ∈ s.finished, p.1.record = ⟨0⟩ ∧ s.Outlives p.1 p.2) ∧
      (s.step (.dropSnapshot ⟨0, 1, true⟩)).recordAt 112 = none := by
  intro s
  have hfinished : ∃ p ∈ s.finished, p.1.record = ⟨0⟩ := by decide +kernel
  obtain ⟨p, hp, hrecord⟩ := hfinished
  have houtlives : s.Outlives p.1 p.2 := (records_outlive_values 0 .checking _).2.2.2.2.2.2.1 p hp
  exact ⟨by decide +kernel, by decide +kernel, ⟨p, hp, hrecord, houtlives⟩, by decide +kernel⟩

end Sampling.Sampler
end RopeStore
