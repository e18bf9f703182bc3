import Mathlib.Data.List.Basic
import Mathlib.Data.List.Forall2
import Mathlib.Data.List.ReduceOption
import RopeStore.Proofs.InStep
import RopeStore.Proofs.Client.Values
import RopeStore.Proofs.Deferral.Observers
import RopeStore.Proofs.Sampling.Track

/-!
# Clients that sample their values

A client of a heap and of a queue tracks some of its values. It keeps what tracking a value gave it, and
uses that only to untrack the same value; and it does not end, empty or replace a tracked value.

* `Tag` : what belongs to a tracked value; `Sampler` : the client, with the tags of its values and all
  records that there ever were;
* `Sampler.Act`, `Sampler.step`, `Sampler.run` : what the client can do. An act that names what is not
  there, or that the client must not do, does nothing;
* `Deed.spares` : the deeds that leave the slots of tracked values alone;
* `Marked m tag` : the slot of a value with the meaning `m` is what its tag says;
  `Tagged.exec` : deeds that spare the tracked values keep that up.
-/

namespace RopeStore

/-- The deed leaves the slots of the values with a tag alone, and does not fill any. -/
def Deed.spares {ρ τ : Type} (tags : List (Option τ)) : Deed ρ → Bool
  | .act (.dropValue i) | .act (.setBytes i _) | .act (.makeTree i _) | .act (.extractRoot i)
  | .act (.clear i) => tags[i]?.join.isNone
  | .edit _ (.setSample _) => false
  | _ => true

namespace Sampling
open Deferral (EntryId Session Queue)

/-- What belongs to a tracked value: its record, which `handle` owns and which lies at `address`. -/
structure Tag where
  handle : EntryId
  record : RecordId
  address : UInt64
  deriving DecidableEq

/-- A client that samples its values. The handles of its queue own records, or other things. -/
structure Sampler (ρ β : Type) where
  client : Client ρ
  registry : Registry
  session : Session (RecordId ⊕ β)
  tags : List (Option Tag)
  /-- What belonged to some value at some time. -/
  placed : List Tag
  /-- What belonged to values that are not tracked any more, with the record as it was then. -/
  finished : List (Tag × Record)

namespace Sampler
variable {ρ β : Type}

inductive Act (ρ β : Type)
  | deed (d : Deed ρ)
  /-- Tracks value number `i`. The memory has a place for the record at `address`. -/
  | track (i : Nat) (method : Method) (address : UInt64)
  | untrack (i : Nat)
  /-- Notes an update in the record that the slot of value number `i` leads to. -/
  | update (i : Nat) (method : Method) (size : Nat)
  | openSnapshot
  | dropSnapshot (e : EntryId)
  | newHandle (payload : β)
  | deleteHandle (h : EntryId)

def start (number : Nat) (kind : LockKind) : Sampler ρ β :=
  ⟨.initial, .empty, .start number kind, [], [], []⟩

/-- The record at an address, if it was not dropped. -/
def recordAt (s : Sampler ρ β) (address : UInt64) : Option RecordId :=
  (s.placed.find? fun t =>
    t.address = address ∧ t.handle ∉ s.session.chronicle.dropped.map (·.1)).map (·.record)

/-- The tags after a deed that left `count` values. The new ones have none. -/
def retag (tags : List (Option Tag)) (count : Nat) : Deed ρ → List (Option Tag)
  | .act (.dropValue i) => tags.eraseIdx i
  | _ => tags ++ .replicate (count - tags.length) none

def trackValue (s : Sampler ρ β) (i : Nat) (v : Value) (method : Method) (address : UInt64) :
    Sampler ρ β :=
  match (track v s.client.heap method Sum.inl fun _ => address).run ⟨s.registry, s.session.queue⟩ with
  | .ok new office =>
    let tag : Tag := ⟨new.handle, new.id, address⟩
    { s with
      client := { s.client with values := s.client.values.set i new.value }
      registry := office.registry
      session := { s.session with
        queue := office.queue
        chronicle := s.session.chronicle.makes new.handle (.inl new.id) }
      tags := s.tags.set i (some tag)
      placed := tag :: s.placed }
  | .error _ office =>
    { s with registry := office.registry, session := { s.session with queue := office.queue } }

def untrackValue (s : Sampler ρ β) (i : Nat) (v : Value) (tag : Tag) : Sampler ρ β :=
  match (untrack v tag.handle tag.address).run s.session.queue with
  | .ok (outcome, taken) queue =>
    { s with
      client := { s.client with values := s.client.values.set i (outcome.toOption.getD v) }
      session := { s.session with
        queue
        chronicle :=
          (s.session.chronicle.deletes tag.handle).drops (taken.toList.map (tag.handle, ·)) }
      tags := s.tags.set i none
      finished := (s.registry.find? tag.record).toList.map (tag, ·) ++ s.finished }
  | .error fault queue =>
    { s with
      session := ⟨queue, s.session.chronicle.deletes tag.handle, fault :: s.session.faults⟩
      tags := s.tags.set i none }

def updateAt (s : Sampler ρ β) (address : UInt64) (method : Method) (size : Nat) : Sampler ρ β :=
  (s.recordAt address).elim s fun id =>
    match (Registry.onRecord id (Record.update method size)).run s.registry with
    | .ok _ registry | .error _ registry => { s with registry }

def step (s : Sampler ρ β) : Act ρ β → Sampler ρ β
  | .deed d =>
    if d.spares s.tags then
      let client := s.client.exec d
      { s with client, tags := retag s.tags client.values.length d }
    else s
  | .track i method address =>
    -- The client tracks no value twice, and the memory gives no place away that is taken.
    if s.tags[i]? = some none ∧ Fits address ∧ s.recordAt address = none then
      s.client.values[i]?.elim s fun v => s.trackValue i v method address
    else s
  | .untrack i =>
    s.client.values[i]?.elim s fun v => s.tags[i]?.join.elim s fun tag => s.untrackValue i v tag
  | .update i method size =>
    match s.client.values[i]?.map Value.sample with
    | some (.ok (some address)) => s.updateAt address method size
    | _ => s
  | .openSnapshot => { s with session := s.session.step .openSnapshot }
  | .dropSnapshot e => { s with session := s.session.step (.dropSnapshot e) }
  | .newHandle payload => { s with session := s.session.step (.newHandle (.inr payload)) }
  | .deleteHandle h =>
    if ∃ t ∈ s.placed, t.handle = h then s
    else { s with session := s.session.step (.deleteHandle h) }

def run (s : Sampler ρ β) (acts : List (Act ρ β)) : Sampler ρ β := acts.foldl step s

end Sampler

/-! ## Lists of tags -/

section Lists
variable {α γ τ : Type} {as : List α} {i : Nat} {tags : List (Option τ)} {t : τ}

theorem map_modify_of_eq {f : α → α} {g : α → γ} (hf : ∀ a, g (f a) = g a) :
    (as.modify i f).map g = as.map g := by
  induction as generalizing i with
  | nil => cases i <;> rfl
  | cons a rest ih =>
    cases i with
    | zero => exact congrArg (· :: rest.map g) (hf a)
    | succ i => exact congrArg (g a :: ·) ih

/-- What depends on `f` only is the same where `f` is. -/
theorem map_eq_map_of_map_eq_map {f : α → γ} {g : α → τ} (hg : ∀ a a', f a = f a' → g a = g a')
    {as' : List α} (h : as.map f = as'.map f) : as.map g = as'.map g := by
  induction as generalizing as' with
  | nil =>
    obtain rfl := List.map_eq_nil_iff.1 h.symm
    rfl
  | cons a rest ih =>
    obtain ⟨a', rest', rfl, hhead, hrest⟩ := List.map_eq_cons_iff.1 h.symm
    rw [List.map_cons, List.map_cons, hg a a' hhead.symm, ih hrest.symm]

theorem reduceOption_set_perm (hi : tags[i]? = some none) :
    (tags.set i (some t)).reduceOption.Perm (t :: tags.reduceOption) := by
  induction tags generalizing i with
  | nil => cases hi
  | cons tag rest ih =>
    cases i with
    | zero =>
      cases hi
      exact .refl _
    | succ i =>
      cases tag with
      | none => exact ih hi
      | some t' => exact ((ih hi).cons t').trans (.swap t t' _)

theorem reduceOption_perm_set (hi : tags[i]? = some (some t)) :
    tags.reduceOption.Perm (t :: (tags.set i none).reduceOption) := by
  obtain ⟨hlt, hget⟩ := List.getElem?_eq_some_iff.1 hi
  have hback : (tags.set i none).set i (some t) = tags := by
    rw [List.set_set, ← hget, List.set_getElem_self]
  have hnone : (tags.set i none)[i]? = some none := by simp [hlt]
  simpa [hback] using reduceOption_set_perm (t := t) hnone

theorem reduceOption_eraseIdx (hi : tags[i]?.join = none) :
    (tags.eraseIdx i).reduceOption = tags.reduceOption := by
  induction tags generalizing i with
  | nil => rfl
  | cons tag rest ih =>
    cases i with
    | zero =>
      obtain rfl : tag = none := hi
      rfl
    | succ i =>
      cases tag with
      | none => exact ih hi
      | some t' => exact congrArg (t' :: ·) (ih hi)

end Lists

/-! ## Slots and tags -/

open Value (Meaning Call)
variable {ρ : Type} {c : Client ρ} {ms : List Meaning} {m : Meaning} {tag : Option Tag}
  {tags : List (Option Tag)} {d : Deed ρ} {i : Nat}

/-- The slot of a tree holds the address that its tag says. A short value has no tag. -/
def Marked : Meaning → Option Tag → Prop
  | .string _ _, tag => tag = none
  | .tree slot _, tag => slot = (tag.map (·.address)).elim Value.nullSlot (· ||| 1)

theorem marked_replaceRoot (hm : Marked m tag) (h : Heap ρ) (root : NodeId) :
    Marked ((Call.replaceRoot root).specify h m) tag := by
  cases m <;> exact hm

theorem marked_resize (hm : Marked m tag) (size : Nat) : Marked (m.resize size) tag := by
  cases m with
  | tree slot root => exact hm
  | string content spare =>
    rw [Meaning.resize]
    split <;> exact hm

theorem marked_overwrite (hm : Marked m tag) (start : Nat) (data : List UInt8) :
    Marked (m.overwrite start data) tag := by
  cases m with
  | tree slot root => exact hm
  | string content spare =>
    rw [Meaning.overwrite]
    split <;> exact hm

/-- A value that is not tracked can be replaced in any way. -/
theorem marked_none {call : Call} (hm : Marked m none) (hcall : ∀ record, call ≠ .setSample record)
    (h : Heap ρ) : Marked (call.specify h m) none := by
  cases call with
  | setSample record => exact absurd rfl (hcall record)
  | setSize size => exact marked_resize hm size
  | writeAt start data => exact marked_overwrite hm start data
  | setBytes data => cases m <;> rw [Call.specify] <;> split <;> rfl
  | makeTree root =>
    cases m
    · rfl
    · rw [Call.specify]
      split <;> rfl
  | replaceRoot root => exact marked_replaceRoot hm h root
  | extractRoot => cases m <;> rfl
  | clear => cases m <;> rfl

/-! ## Deeds -/

theorem forall₂_retag (hms : List.Forall₂ Marked ms tags) :
    List.Forall₂ Marked ms (tags ++ .replicate (ms.length - tags.length) none) := by
  rw [hms.length_eq, Nat.sub_self, List.replicate_zero, List.append_nil]
  exact hms

theorem forall₂_retag_concat {m : Meaning} (hms : List.Forall₂ Marked ms tags) (hm : Marked m none) :
    List.Forall₂ Marked (ms ++ [m])
      (tags ++ .replicate ((ms ++ [m]).length - tags.length) none) := by
  rw [List.length_append, List.length_singleton, hms.length_eq, Nat.add_sub_cancel_left]
  exact List.rel_append hms (.cons hm .nil)

theorem forall₂_modify_of_spared {f : Meaning → Meaning} (hms : List.Forall₂ Marked ms tags)
    (hspared : tags[i]?.join.isNone = true) (hf : ∀ m, Marked m none → Marked (f m) none) :
    List.Forall₂ Marked (ms.modify i f) tags := by
  refine forall₂_modify hms fun m tag htag hm => ?_
  rw [htag, Option.join_some, Option.isNone_iff_eq_none] at hspared
  subst hspared
  exact hf m hm

theorem forall₂_specify (hms : List.Forall₂ Marked ms tags) (hd : d.spares tags = true) :
    List.Forall₂ Marked (c.specify ms d) (Sampler.retag tags (c.specify ms d).length d) := by
  -- New values have empty slots, replaced ones had no tag, and all else keeps the slot.
  cases d with
  | act a =>
    cases a with
    | newValue => exact forall₂_retag_concat hms rfl
    | shortValue data =>
      rw [Client.specify]
      split
      · exact forall₂_retag_concat hms rfl
      · exact forall₂_retag hms
    | treeValue j =>
      rw [Client.specify]
      cases c.refs[j]? with
      | none => exact forall₂_retag hms
      | some id => exact forall₂_retag_concat hms rfl
    | copyValue data =>
      rw [Client.specify]
      split <;> exact forall₂_retag_concat hms rfl
    | cloneValue j =>
      rw [Client.specify]
      split
      · split
        · exact forall₂_retag_concat hms rfl
        · exact forall₂_retag hms
      · exact forall₂_retag_concat hms rfl
      · exact forall₂_retag hms
    | dropValue j => exact forall₂_eraseIdx hms j
    | setBytes j data =>
      exact forall₂_retag (forall₂_modify_of_spared hms hd fun m hm => marked_none hm (by simp) _)
    | makeTree j k =>
      rw [Client.specify]
      cases c.refs[k]? with
      | none => exact forall₂_retag hms
      | some root =>
        exact forall₂_retag (forall₂_modify_of_spared hms hd fun m hm => marked_none hm (by simp) _)
    | replaceRoot j k =>
      rw [Client.specify]
      cases c.refs[k]? with
      | none => exact forall₂_retag hms
      | some root =>
        exact forall₂_retag (forall₂_modify hms fun m tag _ hm => marked_replaceRoot hm _ root)
    | extractRoot j =>
      exact forall₂_retag (forall₂_modify_of_spared hms hd fun m hm => marked_none hm (by simp) _)
    | clear j =>
      exact forall₂_retag (forall₂_modify_of_spared hms hd fun m hm => marked_none hm (by simp) _)
    | _ => exact forall₂_retag hms
  | edit j e =>
    cases e with
    | setSize size => exact forall₂_retag (forall₂_modify hms fun m tag _ hm => marked_resize hm size)
    | writeAt start data =>
      exact forall₂_retag (forall₂_modify hms fun m tag _ hm => marked_overwrite hm start data)
    | setSample record => cases hd

theorem reduceOption_retag (hd : d.spares tags = true) (count : Nat) :
    (Sampler.retag tags count d).reduceOption = tags.reduceOption := by
  have hmore : (tags ++ List.replicate (count - tags.length) none).reduceOption =
      tags.reduceOption := by
    rw [List.reduceOption_append, List.reduceOption_replicate_none, List.append_nil]
  unfold Sampler.retag
  split
  · exact reduceOption_eraseIdx (Option.isNone_iff_eq_none.1 hd)
  · exact hmore

/-- The values are well formed, and their slots are what their tags say. -/
structure Tagged (c : Client ρ) (tags : List (Option Tag)) : Prop where
  formed : ∀ v ∈ c.values, v.Formed
  marked : List.Forall₂ Marked (c.values.map Value.meaning) tags

namespace Tagged
variable {v w : Value}

theorem exec (ht : Tagged c tags) (hd : d.spares tags = true) :
    Tagged (c.exec d) (Sampler.retag tags (c.exec d).values.length d) := by
  have hshows : (c.exec d).Shows (c.specify _ d) := Client.Shows.exec ⟨ht.formed, rfl⟩ d
  refine ⟨hshows.formed, ?_⟩
  rw [← List.length_map, hshows.meanings]
  exact forall₂_specify ht.marked hd

theorem set (ht : Tagged c tags) (hw : w.Formed) (hm : Marked w.meaning tag) :
    Tagged { c with values := c.values.set i w } (tags.set i tag) := by
  refine ⟨fun v hv => ?_, ?_⟩
  · rcases List.mem_or_eq_of_mem_set hv with hv | rfl
    · exact ht.formed v hv
    · exact hw
  · rw [List.map_set]
    exact forall₂_set ht.marked hm

theorem exists_tag (ht : Tagged c tags) (hi : c.values[i]? = some v) :
    ∃ tag, tags[i]? = some tag ∧ Marked v.meaning tag :=
  exists_of_forall₂ ht.marked (by rw [List.getElem?_map, hi]; rfl)

/-- A value with a tag is a tree, whose slot has its address. -/
theorem exists_tree {t : Tag} (ht : Tagged c tags) (hi : c.values[i]? = some v)
    (htag : tags[i]? = some (some t)) : ∃ root, v = .tree (t.address ||| 1) root ∧ v.Formed := by
  obtain ⟨tag, htag', hm⟩ := ht.exists_tag hi
  rw [htag] at htag'
  cases htag'
  have hv := ht.formed v (List.mem_of_getElem? hi)
  cases v with
  | short control payload => cases hm
  | tree slot root =>
    obtain rfl : slot = t.address ||| 1 := hm
    exact ⟨root, rfl, hv⟩

theorem names (ht : Tagged c tags) (hi : c.values[i]? = some v) (htag : tags[i]? = some tag)
    (htree : v.isTree = true) (hfits : ∀ t ∈ tag, Fits t.address) :
    v.Names (tag.map (·.address)) := by
  obtain ⟨tag', htag', hm⟩ := ht.exists_tag hi
  rw [htag] at htag'
  cases htag'
  have hv := ht.formed v (List.mem_of_getElem? hi)
  cases v with
  | short control payload =>
    obtain ⟨size, hsize, rfl⟩ := hv
    rw [Value.isTree_short hsize] at htree
    cases htree
  | tree slot root =>
    obtain rfl : slot = (tag.map (·.address)).elim Value.nullSlot (· ||| 1) := hm
    refine Value.names_of_meaning hv rfl fun a ha => ?_
    obtain ⟨t, rfl, rfl⟩ := Option.map_eq_some_iff.1 ha
    exact hfits t rfl

/-- The clone of a tree is not sampled. -/
theorem cloneValue (ht : Tagged c tags) (i : Nat) :
    ∃ new, (c.exec (.act (.cloneValue i))).values = c.values ++ new ∧
      ∀ w ∈ new, w.isTree = true → w.isSampled = .ok false := by
  rw [Client.exec, Client.act]
  cases hi : c.values[i]? with
  | none => exact ⟨[], (List.append_nil _).symm, by simp⟩
  | some v =>
    have hv := ht.formed v (List.mem_of_getElem? hi)
    rw [Option.elim_some, Client.keepValue]
    split
    · rename_i w heap hrun
      refine ⟨[w], rfl, fun w' hw' htree => ?_⟩
      obtain rfl := List.mem_singleton.1 hw'
      cases v with
      | short control payload =>
        obtain ⟨size, hsize, rfl⟩ := hv
        cases hrun
        rw [Value.isTree_short hsize] at htree
        cases htree
      | tree slot root =>
        rw [Value.clone, Value.root?_of_formed hv] at hrun
        obtain ⟨_, _, -, hanswer⟩ := run_bind_eq_ok_iff.1 hrun
        cases hanswer
        exact (Value.names_ofTree root).isSampled
    · exact ⟨[], (List.append_nil _).symm, by simp⟩

theorem replaceRoot (ht : Tagged c tags) (i j : Nat) :
    (c.exec (.act (.replaceRoot i j))).values.map Value.sample = c.values.map Value.sample := by
  have hshows : (c.exec (.act (.replaceRoot i j))).Shows (c.specify _ (.act (.replaceRoot i j))) :=
    Client.Shows.exec ⟨ht.formed, rfl⟩ _
  have hslots : (c.exec (.act (.replaceRoot i j))).values.map (·.meaning.slot?) =
      c.values.map (·.meaning.slot?) := by
    have hmeanings := congrArg (List.map Meaning.slot?) hshows.meanings
    rw [List.map_map] at hmeanings
    refine hmeanings.trans ?_
    rw [Client.specify]
    cases c.refs[j]? with
    | none => exact List.map_map
    | some root =>
      have hkeeps : ∀ m, ((Call.replaceRoot root).specify c.heap m).slot? = m.slot? := by
        intro m
        cases m <;> rfl
      rw [Option.elim_some, map_modify_of_eq hkeeps]
      exact List.map_map
  exact map_eq_map_of_map_eq_map (fun _ _ => Value.sample_eq_of_slot?) hslots

end Tagged
end Sampling
end RopeStore
