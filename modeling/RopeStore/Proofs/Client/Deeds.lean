import Mathlib.Data.List.Basic
import Mathlib.Data.List.Infix
import RopeStore.Value.Slot
import RopeStore.Proofs.Value.Steady
import RopeStore.Proofs.Client.Ledger

/-!
# The deeds of a client

* `Edit` : the changes of the bytes of a value alone, which leave its root where it is;
* `Deed` : what a client can do to its nodes and values, acts and edits; `Client.after` : all deeds in
  their order, begun with nothing;
* `Sane c` : the counts of a client are right; `Sane.exec` : every deed keeps that up;
* `Uncrowded deeds` : no node ever has more owners than there are words for its count;
  `Uncrowded.sane`, `Uncrowded.legible` : so the counts are right after the deeds, and can be told;
* `after_clones` : what a client does that takes one more reference to a node, again and again.
-/

namespace RopeStore
variable {ρ : Type}

/-! ## Edits -/

/-- A change of the bytes of a value alone. -/
inductive Edit
  | setSize (size : Nat)
  | writeAt (start : Nat) (data : List UInt8)
  | setSample (record : Option UInt64)

def Edit.apply : Edit → Value → Except Fault Value
  | .setSize size, v => v.setSize size
  | .writeAt start data, v => v.writeAt start data
  | .setSample record, v => v.setSample record

namespace Value

theorem roots_of_payload? {v : Value} {payload : Vector UInt8 15} (hv : v.payload? = some payload) :
    v.roots = [] := by
  cases v with
  | short control payload => rfl
  | tree slot root => cases hv

theorem isTree_or_one (slot : UInt64) (root : NodeId) :
    (Value.tree (slot ||| 1) root).isTree = true := by
  have hodd : (slot ||| 1).toUInt8 &&& 1 = 1 := by
    rw [← UInt8.toNat_inj]
    simp [UInt8.toNat_and]
  rw [isTree, control, hodd]
  rfl

theorem roots_apply {v w : Value} {e : Edit} (hw : e.apply v = .ok w) : w.roots = v.roots := by
  cases e with
  | setSize size =>
    rw [Edit.apply, setSize] at hw
    split at hw
    · cases hw
    · rename_i payload hv
      rw [roots_of_payload? hv]
      split at hw
      · cases hw
        rfl
      · cases hw
  | writeAt start data =>
    rw [Edit.apply, writeAt, payload] at hw
    cases hv : v.payload? with
    | none =>
      rw [hv] at hw
      cases hw
    | some payload =>
      rw [hv] at hw
      rw [roots_of_payload? hv]
      replace hw : (if start + data.length ≤ maxShort then Except.ok _
        else Except.error Fault.outOfBounds) = Except.ok w := hw
      split at hw
      · cases hw
        rfl
      · cases hw
  | setSample record =>
    rw [Edit.apply, setSample] at hw
    split at hw
    · cases hw
    · rename_i root hv
      cases hw
      have htree : (Value.tree (record.elim nullSlot (· ||| 1)) root).isTree = true := by
        cases record with
        | none => exact isTree_nullSlot root
        | some address => exact isTree_or_one address root
      rw [roots, roots, hv, root?, if_pos htree]

end Value

/-! ## Deeds -/

/-- What a client can do to its nodes and values. -/
inductive Deed (ρ : Type)
  | act (a : Act ρ)
  | edit (i : Nat) (e : Edit)

namespace Client
variable {c : Client ρ} {i : Nat} {id : NodeId} {v : Value}

def exec (c : Client ρ) : Deed ρ → Client ρ
  | .act a => c.act a
  | .edit i e => c.values[i]?.elim c fun v =>
    match e.apply v with
    | .ok w => { c with values := c.values.set i w }
    | .error _ => c

/-- The client after all deeds in their order, begun with nothing. -/
def after (deeds : List (Deed ρ)) : Client ρ := deeds.foldl exec initial

theorem after_concat (deeds : List (Deed ρ)) (d : Deed ρ) :
    after (deeds ++ [d]) = (after deeds).exec d := by
  rw [after, List.foldl_append]
  rfl

/-- The counts of a client are right, and what was made to live for ever is live. -/
structure Sane (c : Client ρ) : Prop where
  owned : Owned c.heap c.held
  statics : c.Statics

theorem sane_initial : (initial : Client ρ).Sane := ⟨ledger_initial.owned, ledger_initial.statics⟩

theorem heap_exec_edit (c : Client ρ) (i : Nat) (e : Edit) : (c.exec (.edit i e)).heap = c.heap := by
  rw [exec]
  cases c.values[i]? with
  | none => rfl
  | some v =>
    rw [Option.elim_some]
    split <;> rfl

/-- **Every deed, also one that faults, keeps the counts right.** -/
theorem Sane.exec (hs : c.Sane) (hl : Legible c.heap c.held) (d : Deed ρ) : (c.exec d).Sane := by
  cases d with
  | act a =>
    have hkeeps := keeps_act hs.owned hl hs.statics a
    exact ⟨hkeeps.owned, hkeeps.statics⟩
  | edit i e =>
    rw [Client.exec]
    cases hi : c.values[i]? with
    | none => exact hs
    | some v =>
      rw [Option.elim_some]
      split
      · rename_i w hw
        refine ⟨owned_of_count hs.owned fun j => ?_, hs.statics⟩
        simp only [count_held, count_roots_of_set hi, count_roots_of_value hi, Value.roots_apply hw]
      · exact hs

/-! ## Crowds -/

/-- At no time does a node have more owners than there are words for its count. -/
def Uncrowded (deeds : List (Deed ρ)) : Prop :=
  ∀ done, done <+: deeds → ∀ id, (after done).owners id ≤ RefCount.period

namespace Uncrowded
variable {deeds done : List (Deed ρ)}

theorem of_prefix (hu : Uncrowded deeds) (hdone : done <+: deeds) : Uncrowded done :=
  fun part hpart => hu part (hpart.trans hdone)

/-- It is enough to look at all that is held. -/
theorem of_small
    (hsmall : ∀ done ∈ deeds.inits,
      (after done).held.length + (after done).heap.nodes.size ≤ RefCount.period) :
    Uncrowded deeds := fun done hdone id =>
  Nat.le_trans (owners_le (after done) id) (hsmall done ((List.mem_inits ..).2 hdone))

theorem legible (hu : Uncrowded deeds) : Legible (after deeds).heap (after deeds).held := fun id => by
  rw [← owners_eq]
  exact hu deeds List.prefix_rfl id

theorem sane (hu : Uncrowded deeds) : (after deeds).Sane := by
  induction deeds using List.reverseRecOn with
  | nil => exact sane_initial
  | append_singleton deeds d ih =>
    have hbefore : Uncrowded deeds := hu.of_prefix (List.prefix_append deeds [d])
    rw [after_concat]
    exact (ih hbefore).exec hbefore.legible d

end Uncrowded

/-! ## More and more owners -/

/-- A place names what it named for as long as the bodies and the values stay, also where references
are added. -/
theorem find?_append_refs {p : Place} {heap : Heap ρ} {more : List NodeId}
    (hbody : ∀ j, heap.body? j = c.heap.body? j) (hp : c.find? p = some id) :
    find? { c with heap, refs := c.refs ++ more } p = some id := by
  induction p generalizing id with
  | ref i => exact (List.getElem?_append_left (List.getElem?_eq_some_iff.1 hp).1).trans hp
  | root i => exact hp
  | child of ih =>
    obtain ⟨parent, hparent, hchild⟩ := Option.bind_eq_some_iff.1 hp
    rw [find?, ih hparent, Option.bind_some]
    show (heap.body? parent).bind Body.child? = _
    rw [hbody, hchild]

theorem exec_clone {p : Place} {m : Nat} {b : Body ρ} (hp : c.find? p = some id)
    (hn : c.heap.find? id = some ⟨.ofNat m, b⟩) :
    c.exec (.act (.clone p)) =
      { c with heap := c.heap.put id ⟨.ofNat (m + 1), b⟩, refs := c.refs ++ [id] } := by
  show (c.find? p).elim c (fun id => c.keep (do Heap.retain id; return id)) = _
  rw [hp, Option.elim_some, keep, run_bind_of_run_eq_ok (Heap.run_retain hn), RefCount.ofNat_succ]
  rfl

/-- **The count of a node goes on to the next word with each reference to it, and nothing stops it.** -/
theorem after_clones {deeds : List (Deed ρ)} {p : Place} {m : Nat} {b : Body ρ}
    (hp : (after deeds).find? p = some id) (hn : (after deeds).heap.find? id = some ⟨.ofNat m, b⟩)
    (k : Nat) :
    after (deeds ++ List.replicate k (.act (.clone p))) =
      { after deeds with
        heap := (after deeds).heap.put id ⟨.ofNat (m + k), b⟩
        refs := (after deeds).refs ++ List.replicate k id } := by
  induction k with
  | zero =>
    rw [Nat.add_zero, List.replicate_zero, List.append_nil, Heap.put_of_find? hn,
      List.replicate_zero, List.append_nil]
  | succ k ih =>
    have hput := Heap.find?_put hn ⟨.ofNat (m + k), b⟩
    have hsame := Heap.body?_put_refs hn (.ofNat (m + k))
    rw [List.replicate_succ', ← List.append_assoc, after_concat, ih,
      exec_clone (find?_append_refs hsame hp) (by rw [hput, if_pos rfl]), List.replicate_succ',
      ← List.append_assoc]
    congr 1
    exact Heap.put_put ..

end Client
end RopeStore
