import Mathlib.Data.List.Basic
import RopeStore.Proofs.Value.Meaning

/-!
# Calls that change a value

* `Heap.succeeds h op` : the operation does not fault in the heap `h`;
* `Value.Call` : the calls that change a value; `Call.run` : what they do;
  `Call.specify` : the meaning that they leave;
* `Call.Left` : what a call that faults leaves: the value as it was, with two exceptions;
* `Call.ends_run` : every call leaves a well-formed value with the meaning that is specified.
-/

namespace RopeStore

/-- The operation does not fault in the heap `h`. -/
def Heap.succeeds {ρ α : Type} (h : Heap ρ) (op : HeapM ρ α) : Bool :=
  match op.run h with
  | .ok _ _ => true
  | .error _ _ => false

namespace Value
variable {ρ : Type} {h : Heap ρ} {v : Value} {root : NodeId}

/-- A call that changes a value. -/
inductive Call
  | setBytes (data : List UInt8)
  | makeTree (root : NodeId)
  | replaceRoot (root : NodeId)
  | extractRoot
  | clear
  | setSize (size : Nat)
  | writeAt (start : Nat) (data : List UInt8)
  | setSample (record : Option UInt64)

namespace Call

def run : Call → ValueM ρ Unit
  | .setBytes data => Value.setBytes data
  | .makeTree root => Value.makeTree root
  | .replaceRoot root => do let _ ← Value.replaceRoot root
  | .extractRoot => do let _ ← Value.extractRoot
  | .clear => Value.clear
  | .setSize size => do put ((← get).value.setSize size)
  | .writeAt start data => do put ((← get).value.writeAt start data)
  | .setSample record => do put ((← get).value.setSample record)

/-- The meaning that a call leaves. Where the old root of a tree cannot be given up, this is the
empty string. -/
def specify (h : Heap ρ) : Call → Meaning → Meaning
  | .setBytes data, .string content spare =>
    if data.length ≤ maxShort then .text data else .string content spare
  | .setBytes data, .tree _ old =>
    if data.length ≤ maxShort ∧ h.succeeds (Heap.release old) then .text data else .text []
  | .makeTree root, .string _ _ => .tree nullSlot root
  | .makeTree root, .tree _ old =>
    if h.succeeds (Heap.release old) then .tree nullSlot root else .text []
  | .replaceRoot root, .tree slot _ => .tree slot root
  | .extractRoot, .tree _ _ => .text []
  | .clear, _ => .text []
  | .setSize size, m => m.resize size
  | .writeAt start data, m => m.overwrite start data
  | .setSample record, m => m.resample record
  | _, m => m

/-- What a call that faults leaves: the value as it was, unless too many bytes were to replace a tree,
which was given up first, or the root of the tree could not be given up. -/
def Left (h : Heap ρ) (v : Value) (call : Call) (s : Held ρ) : Prop :=
  s.value = v ∨
  (∃ data root, call = .setBytes data ∧ maxShort < data.length ∧ v.root? = some root ∧
    (Heap.release root).run h = .ok () s.heap ∧ s.value.meaning = .text []) ∨
  ∃ root, v.root? = some root ∧ h.succeeds (Heap.release root) = false ∧ s.value.meaning = .text []

end Call

/-! ## Parts of calls -/

/-- A well-formed value with this meaning. -/
def Denotes (v : Value) (m : Meaning) : Prop := v.Formed ∧ v.meaning = m

theorem leaves_put_of_turns {change : Except Fault Value} {m : Meaning} (hv : v.Formed)
    (hturns : v.Turns m change) {good : Unit → Held ρ → Prop} {bad : Fault → Held ρ → Prop}
    (hgood : ∀ w, w.Denotes m → good () ⟨h, w⟩)
    (hbad : ∀ fault, change = .error fault → v.Denotes m → bad fault ⟨h, v⟩) :
    Leaves (put change) (⟨h, v⟩ : Held ρ) good bad := by
  cases change with
  | ok w => exact hgood w hturns
  | error fault => exact hbad fault rfl ⟨hv, hturns⟩

theorem lt_length_of_ofShort_eq_error {data : List UInt8} {fault : Fault}
    (herror : ofShort data = .error fault) : maxShort < data.length := by
  rw [ofShort] at herror
  split at herror
  · cases herror
  · rename_i hlong
    exact Nat.lt_of_not_le hlong

theorem root?_of_formed {slot : UInt64} (hv : (Value.tree slot root).Formed) :
    (Value.tree slot root).root? = some root := if_pos (isTree_tree hv)

/-- The root of a tree is given up, and then the value is empty. -/
theorem leaves_dropRoot_tree {slot : UInt64} (hv : (Value.tree slot root).Formed)
    {good : Unit → Held ρ → Prop} {bad : Fault → Held ρ → Prop}
    (hgood : ∀ heap, h.succeeds (Heap.release root) = true →
      (Heap.release root).run h = .ok () heap → good () ⟨heap, cleared⟩)
    (hbad : ∀ fault heap, h.succeeds (Heap.release root) = false → bad fault ⟨heap, cleared⟩) :
    Leaves dropRoot (⟨h, .tree slot root⟩ : Held ρ) good bad := by
  unfold Leaves
  rw [run_dropRoot_of_some (root?_of_formed hv)]
  refine leaves_onHeap.2 ?_
  cases hrun : (Heap.release root).run h with
  | ok _ heap =>
    exact leaves_of_run_eq_ok hrun (hgood heap (by rw [Heap.succeeds, hrun]) hrun)
  | error fault heap =>
    exact leaves_of_run_eq_error hrun (hbad fault heap (by rw [Heap.succeeds, hrun]))

/-! ## Calls -/

namespace Call

/-- What is specified, and where the call faults, what that leaves. -/
def Ends (h : Heap ρ) (v : Value) (call : Call) : Prop :=
  Leaves call.run (⟨h, v⟩ : Held ρ) (fun _ s => s.value.Denotes (call.specify h v.meaning))
    fun _ s => s.value.Denotes (call.specify h v.meaning) ∧ Left h v call s

theorem ends_setBytes (hv : v.Formed) (data : List UInt8) : Ends h v (.setBytes data) := by
  show Leaves (dropRoot >>= fun _ => put (ofShort data)) _ _ _
  cases v with
  | short control payload =>
    refine (leaves_bind_of_run_eq_ok (run_dropRoot_of_none rfl)).2 ?_
    exact leaves_put_of_turns hv (turns_ofShort _ data) (fun _ hw => hw)
      fun _ _ hd => ⟨hd, Or.inl rfl⟩
  | tree slot root =>
    refine leaves_bind.2 (leaves_dropRoot_tree hv ?_ ?_)
    · intro heap hsucceeds hrun
      have hmeaning : specify h (.setBytes data) (.tree slot root) =
          if data.length ≤ maxShort then .text data else cleared.meaning := by
        simp only [specify, hsucceeds, and_true, meaning_cleared]
      refine leaves_put_of_turns formed_cleared (turns_ofShort cleared data) ?_ ?_
      · exact fun w hw => hmeaning ▸ hw
      · exact fun fault herror hd => ⟨hmeaning ▸ hd, Or.inr (Or.inl ⟨data, root, rfl,
          lt_length_of_ofShort_eq_error herror, root?_of_formed hv, hrun, meaning_cleared⟩)⟩
    · intro fault heap hfails
      have hmeaning : specify h (.setBytes data) (.tree slot root) = .text [] := by
        simp only [specify, hfails, Bool.false_eq_true, and_false, if_false]
      exact ⟨⟨formed_cleared, meaning_cleared.trans hmeaning.symm⟩,
        Or.inr (Or.inr ⟨root, root?_of_formed hv, hfails, meaning_cleared⟩)⟩

theorem ends_clear (hv : v.Formed) : Ends h v .clear := by
  have hmeaning : specify h (.setBytes []) v.meaning = specify h .clear v.meaning := by
    cases v with
    | short control payload => rfl
    | tree slot root => exact ite_self _
  refine (ends_setBytes hv []).mono (fun _ _ hd => hmeaning ▸ hd) ?_
  rintro _ s ⟨hd, hleft⟩
  refine ⟨hmeaning ▸ hd, hleft.imp_right (Or.imp_left ?_)⟩
  rintro ⟨_, _, ⟨⟩, hlong, -⟩
  exact absurd hlong (Nat.not_lt_zero _)

theorem ends_makeTree (hv : v.Formed) (root : NodeId) : Ends h v (.makeTree root) := by
  refine leaves_tryCatch.2 ?_
  cases v with
  | short control payload =>
    refine (leaves_bind_of_run_eq_ok (run_dropRoot_of_none rfl)).2 ?_
    exact leaves_put_of_turns hv (turns_ofTree _ root)
      (fun _ hw => hw) fun _ herror => nomatch herror
  | tree slot old =>
    refine leaves_bind.2 (leaves_dropRoot_tree hv ?_ ?_)
    · intro heap hsucceeds hrun
      have hmeaning : specify h (.makeTree root) (.tree slot old) = .tree nullSlot root := by
        simp only [specify, hsucceeds, if_true]
      exact leaves_put_of_turns formed_cleared (turns_ofTree _ root)
        (fun _ hw => hmeaning ▸ hw) fun _ herror => nomatch herror
    · intro fault heap hfails
      have hmeaning : specify h (.makeTree root) (.tree slot old) = .text [] := by
        simp only [specify, hfails, Bool.false_eq_true, if_false]
      have hleft : ∀ heap : Heap ρ, (⟨heap, cleared⟩ : Held ρ).value.Denotes
          (specify h (.makeTree root) (.tree slot old)) ∧
            Left h (.tree slot old) (.makeTree root) ⟨heap, cleared⟩ := fun heap =>
        ⟨⟨formed_cleared, meaning_cleared.trans hmeaning.symm⟩,
          Or.inr (Or.inr ⟨old, root?_of_formed hv, hfails, meaning_cleared⟩)⟩
      -- The new root is given up as well.
      refine leaves_bind.2 (leaves_onHeap.2 ?_)
      unfold Leaves
      cases (Heap.release root).run heap with
      | ok _ heap' => exact hleft heap'
      | error _ heap' => exact hleft heap'

theorem ends_replaceRoot (hv : v.Formed) (root : NodeId) : Ends h v (.replaceRoot root) := by
  refine leaves_bind.2 (leaves_tryCatch.2 (leaves_bind.2 (leaves_get.2 ?_)))
  cases v with
  | short control payload =>
    -- A short value has no root to replace, and the new one is given up.
    refine leaves_of_run_eq_error (run_bind_of_run_eq_error (e := .rootOfShort) rfl) ?_
    refine leaves_bind.2 (leaves_onHeap.2 ?_)
    unfold Leaves
    cases (Heap.release root).run h with
    | ok _ heap => exact ⟨⟨hv, rfl⟩, Or.inl rfl⟩
    | error _ heap => exact ⟨⟨hv, rfl⟩, Or.inl rfl⟩
  | tree slot old =>
    have hset : (Value.tree slot old).setRoot root = .ok (old, .tree slot root) :=
      if_pos (isTree_tree hv)
    refine (leaves_bind_of_run_eq_ok (run_ofExcept_of_eq_ok hset)).2 ?_
    exact ⟨hv, rfl⟩

theorem ends_extractRoot (hv : v.Formed) : Ends h v .extractRoot := by
  refine leaves_bind.2 (leaves_bind.2 (leaves_get.2 ?_))
  cases v with
  | short control payload => exact ⟨hv, rfl⟩
  | tree slot root =>
    simp only [takeRoot_of_some (root?_of_formed hv)]
    exact ⟨formed_cleared, meaning_cleared⟩

theorem ends_put {change : Except Fault Value} {call : Call} (hv : v.Formed)
    (hrun : (call.run : ValueM ρ Unit).run ⟨h, v⟩ = (put change).run ⟨h, v⟩)
    (hturns : v.Turns (call.specify h v.meaning) change) : Ends h v call := by
  unfold Ends Leaves
  rw [hrun]
  exact leaves_put_of_turns hv hturns (fun _ hw => hw) fun _ _ hd => ⟨hd, Or.inl rfl⟩

/-- **Every call leaves a well-formed value with the meaning that is specified, and a call that faults
leaves the value as it was, with two exceptions.** -/
theorem ends_run (hv : v.Formed) (h : Heap ρ) (call : Call) : Ends h v call := by
  cases call with
  | setBytes data => exact ends_setBytes hv data
  | makeTree root => exact ends_makeTree hv root
  | replaceRoot root => exact ends_replaceRoot hv root
  | extractRoot => exact ends_extractRoot hv
  | clear => exact ends_clear hv
  | setSize size => exact ends_put hv rfl (turns_setSize hv size)
  | writeAt start data => exact ends_put hv rfl (turns_writeAt hv start data)
  | setSample record => exact ends_put hv rfl (turns_setSample hv record)

end Call
end Value
end RopeStore
