import Mathlib.Data.List.Basic
import RopeStore.Proofs.Outcome
import RopeStore.Proofs.Value.Meaning
import RopeStore.Sampling.Track

/-!
# What sampling a value does

* `Fits address` : the address has room in a slot;
* `Value.Names v address` : the slot of the tree `v` has this address, or none;
  `names_of_meaning` : that is what its meaning says;
* `track_cases` : a value is sampled from now on, or nothing happens;
* `run_untrack`, `finish_eq_ok` : the handle is deleted in any case, and where the slot has the address,
  it does not have it afterwards;
* `Registry.OnlyAt r r' id` : at most the record `id` changed; `leaves_onRecord` : whatever is done to a
  record leaves the others alone.
-/

namespace RopeStore

namespace Sampling

/-- The address has room in a slot: it is even and not zero. -/
def Fits (address : UInt64) : Prop := address &&& 1 = 0 ∧ address ≠ 0

instance (address : UInt64) : Decidable (Fits address) := inferInstanceAs (Decidable (_ ∧ _))

end Sampling

namespace Value
open Sampling (Fits)
variable {v : Value} {root : NodeId} {address : Option UInt64}

/-! ## Slots -/

theorem or_one_and_not_one {a : UInt64} (h : a &&& 1 = 0) : (a ||| 1) &&& ~~~1 = a := by
  have hone : ∀ (i : Nat) (hi : i < 64), (1 : UInt64).toBitVec[i] = decide (i = 0) := fun i hi => by
    show (1#64)[i] = _
    simp
  have heven := congrArg UInt64.toBitVec h
  apply UInt64.toBitVec_inj.1
  ext i hi
  have hbit := congrArg (·.getLsbD i) heven
  simp only [UInt64.toBitVec_and, UInt64.toBitVec_or, UInt64.toBitVec_not, BitVec.getElem_and,
    BitVec.getElem_or, BitVec.getElem_not, hone]
  rcases i with _ | i
  · simpa using hbit.symm
  · simp

/-- The value is a tree with this address in its slot, or none. -/
structure Names (v : Value) (address : Option UInt64) : Prop where
  isTree : v.isTree = true
  isSampled : v.isSampled = .ok address.isSome
  sample : v.sample = .ok address

theorem names_of_meaning (hv : v.Formed)
    (hm : v.meaning = .tree (address.elim nullSlot (· ||| 1)) root)
    (hfits : ∀ a ∈ address, Fits a) : v.Names address := by
  obtain ⟨-, -, htree, -, -, hslot, -⟩ : v.Agrees Heap.initial _ := hm ▸ hv.agrees (Heap.initial : Heap Unit)
  constructor
  case isTree => exact htree
  case isSampled =>
    rw [isSampled, hslot]
    cases address with
    | none => rfl
    | some a =>
      obtain ⟨heven, hne⟩ := hfits a rfl
      have hslot : a ||| 1 ≠ nullSlot := by
        intro heq
        rw [← or_one_and_not_one heven, heq] at hne
        exact hne rfl
      show Except.ok (a ||| 1 != nullSlot) = _
      rw [bne_iff_ne.2 hslot]
      rfl
  case sample =>
    rw [sample, hslot]
    cases address with
    | none => rfl
    | some a =>
      obtain ⟨heven, hne⟩ := hfits a rfl
      show Except.ok (if (a ||| 1) &&& ~~~1 = 0 then none else some ((a ||| 1) &&& ~~~1)) = _
      rw [or_one_and_not_one heven, if_neg hne]

theorem names_ofTree (root : NodeId) : (ofTree root).Names none :=
  names_of_meaning (formed_ofTree root) rfl (by simp)

def Meaning.slot? : Meaning → Option UInt64
  | .string _ _ => none
  | .tree slot _ => some slot

theorem sample_eq_of_slot? {w : Value} (h : v.meaning.slot? = w.meaning.slot?) :
    v.sample = w.sample := by
  cases v <;> cases w <;> cases h <;> rfl

end Value

namespace Sampling
open Deferral (EntryId Queue QueueM)
variable {ρ α : Type} {v : Value} {h : Heap ρ} {method : Method} {address : UInt64}

/-! ## Tracking -/

theorem begin_eq_ok {record : Record} (hbegin : begin v h method = .ok record) :
    v.isTree = true ∧ ∃ size, v.length h = .ok size ∧ record = { Record.new method with size } := by
  rw [begin] at hbegin
  split at hbegin
  · rename_i htree
    cases hsize : v.length h with
    | ok size =>
      rw [hsize] at hbegin
      cases hbegin
      exact ⟨htree, size, rfl, rfl⟩
    | error fault =>
      rw [hsize] at hbegin
      cases hbegin
  · cases hbegin

/-- A tree has a new record from now on, which a new handle owns. Anything else is a fault, and nothing
was done. -/
theorem track_cases (hv : v.Formed) (h : Heap ρ) (method : Method) (own : RecordId → α)
    (place : RecordId → UInt64) (o : Office α) :
    (∃ fault, (track v h method own place).run o = .error fault o) ∨
    ∃ slot root size, v = .tree slot root ∧ v.length h = .ok size ∧
      (track v h method own place).run o =
        let id : RecordId := ⟨o.registry.records.size⟩
        let record := { Record.new method with size }
        .ok ⟨.tree (place id ||| 1) root, ⟨o.queue.number, o.queue.cells.size, false⟩, id, record⟩
          ⟨⟨o.registry.records.push record⟩,
            { o.queue with cells := o.queue.cells.push ⟨.handle (own id), none, none⟩ }⟩ := by
  unfold track
  cases hbegin : begin v h method with
  | error fault => exact .inl ⟨fault, rfl⟩
  | ok record =>
    obtain ⟨htree, size, hsize, rfl⟩ := begin_eq_ok hbegin
    refine .inr ?_
    cases v with
    | short control payload =>
      obtain ⟨short, hshort, rfl⟩ := hv
      rw [Value.isTree_short hshort] at htree
      cases htree
    | tree slot root =>
      have hroot : (Value.tree slot root).root? = some root := if_pos htree
      have hset : ∀ a, (Value.tree slot root).setSample (some a) = .ok (.tree (a ||| 1) root) := by
        intro a
        rw [Value.setSample, hroot]
        rfl
      refine ⟨slot, root, size, rfl, hsize, ?_⟩
      simp only [hset]
      rfl

theorem run_untrack (v : Value) (handle : EntryId) (address : UInt64) (q : Queue α) :
    (untrack v handle address).run q =
      match (Queue.delete handle).run q with
      | .ok taken q' => .ok (finish v address, taken) q'
      | .error fault q' => .error fault q' := by
  rw [untrack, EStateM.run_bind]
  cases (Queue.delete handle).run q <;> rfl

theorem finish_eq_ok {slot : UInt64} {root : NodeId} (hn : (Value.tree slot root).Names (some address)) :
    finish (.tree slot root) address = .ok (.tree Value.nullSlot root) := by
  have hroot : (Value.tree slot root).root? = some root := if_pos hn.isTree
  rw [finish, hn.sample]
  show (if some address = some address then _ else _ : Except Fault Value) = _
  rw [if_pos rfl, Value.clearSample, Value.setSample, hroot]
  rfl

/-! ## Records -/

theorem Registry.index_lt_of_isSome {r : Registry} {id : RecordId} (h : (r.find? id).isSome) :
    id.index < r.records.size := by
  obtain ⟨record, hfound⟩ := Option.isSome_iff_exists.1 h
  exact Arena.lt_size_of_get?_eq_some hfound

theorem Registry.find?_push {r : Registry} {id : RecordId} (h : (r.find? id).isSome)
    (record : Record) : (⟨r.records.push record⟩ : Registry).find? id = r.find? id :=
  Arena.get?_push_of_ne record (Nat.ne_of_lt (Registry.index_lt_of_isSome h))

/-- At most the record `id` changed. -/
structure Registry.OnlyAt (r r' : Registry) (id : RecordId) : Prop where
  others : ∀ id', id' ≠ id → r'.find? id' = r.find? id'
  stays : ∀ id', (r.find? id').isSome → (r'.find? id').isSome

theorem Registry.onlyAt_set {r : Registry} {id : RecordId} {record : Record}
    (hfound : r.find? id = some record) (record' : Record) :
    r.OnlyAt ⟨r.records.set id.index record'⟩ id := by
  have hself : (⟨r.records.set id.index record'⟩ : Registry).find? id = some record' :=
    Arena.get?_set_self record' (Arena.lt_size_of_get?_eq_some hfound)
  have hothers : ∀ id', id' ≠ id →
      (⟨r.records.set id.index record'⟩ : Registry).find? id' = r.find? id' := by
    intro id' hne
    apply Arena.get?_set_of_ne
    intro heq
    exact hne (congrArg RecordId.mk heq.symm)
  refine ⟨hothers, fun id' hsome => ?_⟩
  by_cases heq : id' = id
  · rw [heq, hself]
    rfl
  · rwa [hothers id' heq]

theorem leaves_onRecord (r : Registry) (id : RecordId) (op : EStateM Fault Record α) :
    Leaves (Registry.onRecord id op) r (fun _ r' => r.OnlyAt r' id) fun _ r' => r.OnlyAt r' id := by
  unfold Leaves Registry.onRecord EStateM.run
  dsimp only
  cases hfound : r.find? id with
  | none => exact ⟨fun _ _ => rfl, fun _ hsome => hsome⟩
  | some record =>
    dsimp only
    cases op record with
    | ok a record' => exact Registry.onlyAt_set hfound record'
    | error fault record' => exact Registry.onlyAt_set hfound record'

end Sampling
end RopeStore
