import Mathlib.Data.List.Basic
import Mathlib.Data.List.Forall2
import RopeStore.Proofs.InStep
import RopeStore.Proofs.Value.Alike

/-!
# Clients that differ in unused bytes

Two clients do the same, and their values differ in unused bytes at most.

* `Edit.after` : the value after an edit; `Edit.grows` : the edit makes a short value longer;
  `Value.Alike.edit`, `Value.Alike.fill` : the edits that look at no unused bytes;
* `Client.Alike c c'` : unused bytes are all that `c'` differs in; `Alike.act` : every act keeps that up;
* `Careful c deeds` : a short value is made longer only where all its bytes are written as well;
  `Careful.alike` : such deeds keep clients alike;
* `unused_bytes_never_show` : so nothing that is read tells what the unused bytes are, or were.
-/

namespace RopeStore
open Value (EndsAlike Spells Indistinct)
variable {ρ α β : Type}

/-! ## Edits -/

namespace Edit
variable {v w : Value} {data bytes : List UInt8}

/-- The value after an edit, as it was where the edit faults. -/
def after (e : Edit) (v : Value) : Value :=
  match e.apply v with
  | .ok w => w
  | .error _ => v

def grows (v : Value) : Edit → Bool
  | .setSize size => !v.isTree && decide (v.shortSize < size)
  | _ => false

theorem after_of_eq_ok {e : Edit} (h : e.apply v = .ok w) : e.after v = w := by
  rw [after, h]

theorem after_of_eq_error {e : Edit} {fault : Fault} (h : e.apply v = .error fault) :
    e.after v = v := by
  rw [after, h]

theorem after_after_of_eq_ok {e e' : Edit} (h : (e.apply v >>= e'.apply) = .ok w) :
    e'.after (e.after v) = w := by
  obtain ⟨u, hu, hw⟩ := except_bind_eq_ok_iff.1 h
  rw [after_of_eq_ok hu, after_of_eq_ok hw]

theorem after_after_of_eq_error {e e' : Edit} {fault fault' : Fault}
    (h : e.apply v = .error fault) (h' : e'.apply v = .error fault') :
    e'.after (e.after v) = v := by
  rw [after_of_eq_error h, after_of_eq_error h']

theorem formed_after (hv : v.Formed) (e : Edit) : (e.after v).Formed := by
  have hturns := e.turns hv (Heap.initial : Heap Unit)
  rw [after]
  cases hw : e.apply v with
  | ok w =>
    rw [hw] at hturns
    exact hturns.1
  | error fault => exact hv

/-- A payload that is written from the front and cut there has nothing of what was in it before. -/
theorem after_fill (hv : v.Spells data) (bytes : List UInt8) :
    if bytes.length ≤ Value.maxShort then
      (setSize bytes.length).after ((writeAt 0 bytes).after v) =
          .short (Value.controlFor bytes.length) (Value.padded bytes Value.poison) ∧
        (writeAt 0 bytes).after ((setSize bytes.length).after v) =
          .short (Value.controlFor bytes.length) (Value.padded bytes Value.poison)
    else
      (setSize bytes.length).after ((writeAt 0 bytes).after v) = v ∧
        (writeAt 0 bytes).after ((setSize bytes.length).after v) = v := by
  split
  · rename_i hbytes
    have hok := Value.ofShort_eq_ok hbytes
    exact ⟨after_after_of_eq_ok ((hv.setSize_writeAt hbytes).trans hok),
      after_after_of_eq_ok ((hv.writeAt_setSize hbytes).trans hok)⟩
  · rename_i hlong
    have hsize := hv.setSize_of_lt (Nat.lt_of_not_le hlong)
    have hwrite : v.writeAt 0 bytes = .error .outOfBounds :=
      hv.writeAt_of_lt (by rwa [Nat.zero_add, ← Nat.not_le])
    exact ⟨after_after_of_eq_error hwrite hsize, after_after_of_eq_error hsize hwrite⟩

end Edit

namespace Value.Alike
variable {v w : Value}

theorem edit (hvw : v.Alike w) {e : Edit} (he : e.grows v = false) :
    (e.after v).Alike (e.after w) := by
  cases hvw with
  | tree hformed => exact (e.formed_after hformed).alike
  | @short v w data hv hw =>
    cases e with
    | setSize size =>
      have hsize : size ≤ data.length := by
        rw [Edit.grows, hv.isTree, hv.shortSize] at he
        simpa using he
      have hshort : (data.take size).length ≤ maxShort := by
        rw [List.length_take, Nat.min_eq_left hsize]
        exact Nat.le_trans hsize hv.eq_short.1
      have hafter : ∀ {v : Value}, v.Spells data → (Edit.setSize size).after v =
          .short (controlFor (data.take size).length) (padded (data.take size) poison) :=
        fun hv => Edit.after_of_eq_ok ((hv.setSize_eq hsize).trans (ofShort_eq_ok hshort))
      rw [hafter hv, hafter hw]
      exact (formed_padded hshort poison).alike
    | writeAt start bytes =>
      by_cases hfits : start + bytes.length ≤ maxShort
      · obtain ⟨v', hv', hspells⟩ := hv.writeAt_eq hfits
        obtain ⟨w', hw', hspells'⟩ := hw.writeAt_eq hfits
        rw [Edit.after_of_eq_ok (e := .writeAt start bytes) hv',
          Edit.after_of_eq_ok (e := .writeAt start bytes) hw']
        exact .short hspells hspells'
      · have hover := Nat.lt_of_not_le hfits
        rw [Edit.after_of_eq_error (e := .writeAt start bytes) (hv.writeAt_of_lt hover),
          Edit.after_of_eq_error (e := .writeAt start bytes) (hw.writeAt_of_lt hover)]
        exact .short hv hw
    | setSample record =>
      have hafter : ∀ {v : Value}, v.Spells data → (Edit.setSample record).after v = v := by
        intro v hv
        have hfault : (Edit.setSample record).apply v = .error .slotOfShort := by
          rw [Edit.apply, setSample, hv.root?]
        exact Edit.after_of_eq_error hfault
      rw [hafter hv, hafter hw]
      exact .short hv hw

/-- All bytes are written, and the size is set, in either order. -/
theorem fill (hvw : v.Alike w) (bytes : List UInt8) :
    ((Edit.setSize bytes.length).after ((Edit.writeAt 0 bytes).after v)).Alike
        ((Edit.setSize bytes.length).after ((Edit.writeAt 0 bytes).after w)) ∧
      ((Edit.writeAt 0 bytes).after ((Edit.setSize bytes.length).after v)).Alike
        ((Edit.writeAt 0 bytes).after ((Edit.setSize bytes.length).after w)) := by
  cases hvw with
  | tree hformed =>
    exact ⟨(Edit.formed_after (Edit.formed_after hformed _) _).alike,
      (Edit.formed_after (Edit.formed_after hformed _) _).alike⟩
  | short hv hw =>
    have hv' := Edit.after_fill hv bytes
    have hw' := Edit.after_fill hw bytes
    by_cases hbytes : bytes.length ≤ maxShort
    · have halike := (formed_padded hbytes poison).alike
      rw [if_pos hbytes] at hv' hw'
      rw [hv'.1, hv'.2, hw'.1, hw'.2]
      exact ⟨halike, halike⟩
    · rw [if_neg hbytes] at hv' hw'
      rw [hv'.1, hv'.2, hw'.1, hw'.2]
      exact ⟨.short hv hw, .short hv hw⟩

end Value.Alike

/-! ## Alike clients -/

namespace Client
variable {c c' : Client ρ} {i : Nat} {v w : Value}

/-- All that `c'` differs in from `c` is unused bytes of values. -/
def Alike (c c' : Client ρ) : Prop :=
  ∃ values, c' = { c with values } ∧ List.Forall₂ Value.Alike c.values values

namespace Alike

theorem refl (hformed : ∀ v ∈ c.values, v.Formed) : c.Alike c :=
  ⟨c.values, rfl, List.forall₂_same.2 fun v hv => (hformed v hv).alike⟩

theorem root? (hc : c.Alike c') (i : Nat) :
    c'.values[i]?.bind Value.root? = c.values[i]?.bind Value.root? := by
  obtain ⟨values, rfl, hvalues⟩ := hc
  cases hi : c.values[i]? with
  | none => rw [getElem?_eq_none_of_forall₂ hvalues hi]
  | some v =>
    obtain ⟨w, hw, hvw⟩ := exists_of_forall₂ hvalues hi
    rw [hw]
    exact hvw.root?

theorem find? (hc : c.Alike c') (p : Place) : c'.find? p = c.find? p := by
  induction p with
  | ref i =>
    obtain ⟨values, rfl, -⟩ := hc
    rfl
  | root i => exact hc.root? i
  | child of ih =>
    obtain ⟨values, rfl, -⟩ := hc
    exact congrArg (·.bind fun id => (c.heap.body? id).bind Body.child?) ih

/-! ### Kinds of acts -/

theorem keep (hc : c.Alike c') (op : HeapM ρ NodeId) : (c.keep op).Alike (c'.keep op) := by
  obtain ⟨values, rfl, hvalues⟩ := hc
  unfold Client.keep
  cases op.run c.heap <;> exact ⟨values, rfl, hvalues⟩

theorem perform (hc : c.Alike c') (op : HeapM ρ α) : (c.perform op).Alike (c'.perform op) := by
  obtain ⟨values, rfl, hvalues⟩ := hc
  unfold Client.perform
  cases op.run c.heap <;> exact ⟨values, rfl, hvalues⟩

theorem append (hc : c.Alike c') (hvw : v.Alike w) :
    Client.Alike { c with values := c.values ++ [v] } { c' with values := c'.values ++ [w] } := by
  obtain ⟨values, rfl, hvalues⟩ := hc
  exact ⟨_, rfl, List.rel_append hvalues (.cons hvw .nil)⟩

/-- A value that was made of nothing that is different is no different. -/
theorem keepValue {op : HeapM ρ Value} (hc : c.Alike c')
    (hop : ∀ v heap, op.run c.heap = .ok v heap → v.Formed) :
    (c.keepValue op).Alike (c'.keepValue op) := by
  obtain ⟨values, rfl, hvalues⟩ := hc
  unfold Client.keepValue
  cases hrun : op.run c.heap with
  | ok v heap => exact ⟨_, rfl, List.rel_append hvalues (.cons (hop v heap hrun).alike .nil)⟩
  | error fault heap => exact ⟨values, rfl, hvalues⟩

theorem elim (hc : c.Alike c') {o : Option β} {use use' : β → Client ρ}
    (huse : ∀ x, o = some x → (use x).Alike (use' x)) : (o.elim c use).Alike (o.elim c' use') := by
  cases o with
  | none => exact hc
  | some x => exact huse x rfl

theorem elimValue (hc : c.Alike c') {use use' : Value → Client ρ}
    (huse : ∀ v w, v.Alike w → (use v).Alike (use' w)) :
    (c.values[i]?.elim c use).Alike (c'.values[i]?.elim c' use') := by
  obtain ⟨values, rfl, hvalues⟩ := hc
  cases hi : c.values[i]? with
  | none =>
    rw [getElem?_eq_none_of_forall₂ hvalues hi]
    exact ⟨values, rfl, hvalues⟩
  | some v =>
    obtain ⟨w, hw, hvw⟩ := exists_of_forall₂ hvalues hi
    rw [hw]
    exact huse v w hvw

theorem spend (hc : c.Alike c') {use use' : Client ρ → NodeId → Client ρ}
    (huse : ∀ d d' id, d.Alike d' → (use d id).Alike (use' d' id)) :
    (c.spend i use).Alike (c'.spend i use') := by
  obtain ⟨values, rfl, hvalues⟩ := hc
  exact elim ⟨values, rfl, hvalues⟩ fun id _ => huse _ _ id ⟨values, rfl, hvalues⟩

theorem change {op : Value.ValueM ρ α} (hc : c.Alike c') (handed : α → List NodeId)
    (hop : ∀ h : Heap ρ, EndsAlike (op.run ⟨h, v⟩) (op.run ⟨h, w⟩)) :
    (c.change i v op handed).Alike (c'.change i w op handed) := by
  obtain ⟨values, rfl, hvalues⟩ := hc
  obtain ⟨heap, v', w', hvw, ⟨a, hrun, hrun'⟩ | ⟨fault, hrun, hrun'⟩⟩ := (hop c.heap).cases
  · simp only [Client.change, hrun, hrun']
    exact ⟨_, rfl, forall₂_set hvalues hvw⟩
  · simp only [Client.change, hrun, hrun']
    exact ⟨_, rfl, forall₂_set hvalues hvw⟩

/-! ### Acts and edits -/

theorem copyValue (hc : c.Alike c') (data : Bytes) :
    (c.act (.copyValue data)).Alike (c'.act (.copyValue data)) := by
  refine hc.keepValue fun v heap hrun => ?_
  rw [Value.copy] at hrun
  split at hrun
  · rename_i hdata
    rw [Value.ofShort, if_pos hdata] at hrun
    cases hrun
    exact Value.formed_padded hdata _
  · obtain ⟨root, heap', -, hroot⟩ := run_bind_eq_ok_iff.1 hrun
    cases hroot
    exact Value.formed_ofTree root

theorem cloneValue (hc : c.Alike c') (i : Nat) :
    (c.act (.cloneValue i)).Alike (c'.act (.cloneValue i)) := by
  refine hc.elimValue fun v w hvw => ?_
  cases hvw with
  | short hv hw =>
    have hkeep : ∀ (c : Client ρ) (v : Value), v.root? = none →
        c.keepValue (Value.clone v) = { c with values := c.values ++ [v] } := by
      intro c v hroot
      rw [Client.keepValue, Value.clone, hroot]
      rfl
    rw [hkeep c _ hv.root?, hkeep c' _ hw.root?]
    exact hc.append (.short hv hw)
  | @tree slot root hformed =>
    refine hc.keepValue fun v heap hrun => ?_
    rw [Value.clone, Value.root?_of_formed hformed] at hrun
    obtain ⟨-, heap', -, hroot⟩ := run_bind_eq_ok_iff.1 hrun
    cases hroot
    exact Value.formed_ofTree root

theorem dropValue (hc : c.Alike c') (i : Nat) :
    (c.act (.dropValue i)).Alike (c'.act (.dropValue i)) := by
  refine hc.elimValue fun v w hvw => ?_
  obtain ⟨values, rfl, hvalues⟩ := hc
  have herase := forall₂_eraseIdx hvalues i
  cases hvw with
  | short hv hw =>
    rw [Value.drop, Value.run_dropRoot_of_none hv.root?, Value.run_dropRoot_of_none hw.root?]
    exact ⟨_, rfl, herase⟩
  | tree hformed =>
    cases Value.drop.run ⟨c.heap, _⟩ <;> exact ⟨_, rfl, herase⟩

/-- **Every act keeps clients alike**, also one that faults. -/
theorem act (hc : c.Alike c') (a : Act ρ) : (c.act a).Alike (c'.act a) := by
  cases a with
  | newBuffer length => exact hc.keep _
  | newLargeBuffer length => exact hc.keep _
  | ofBytes data => exact hc.keep _
  | bufferWithExtra data extra => exact hc.keep _
  | lend bytes owner => exact hc.keep (Heap.ofOwner bytes owner)
  | newStatic bytes =>
    obtain ⟨values, rfl, hvalues⟩ := hc
    unfold Client.act
    cases (Heap.newStatic bytes).run c.heap <;> exact ⟨values, rfl, hvalues⟩
  | ofStatic i =>
    obtain ⟨values, rfl, hvalues⟩ := hc
    exact elim ⟨values, rfl, hvalues⟩ fun id _ => keep ⟨values, rfl, hvalues⟩ _
  | empty => exact hc.keep _
  | part of pos count =>
    rw [Client.act, Client.act, hc.find? of]
    exact hc.elim fun id _ => hc.keep _
  | partOrCopy of pos count =>
    rw [Client.act, Client.act, hc.find? of]
    exact hc.elim fun id _ => hc.keep _
  | append i data =>
    obtain ⟨values, rfl, hvalues⟩ := hc
    exact elim ⟨values, rfl, hvalues⟩ fun id _ => perform ⟨values, rfl, hvalues⟩ _
  | clone of =>
    rw [Client.act, Client.act, hc.find? of]
    exact hc.elim fun id _ => hc.keep _
  | drop i =>
    rw [Client.act, Client.act]
    exact hc.spend fun d d' id hd => hd.perform (Heap.release id)
  | intoRaw i =>
    rw [Client.act, Client.act]
    refine hc.spend fun d d' id hd => ?_
    obtain ⟨values, rfl, hvalues⟩ := hd
    exact ⟨values, rfl, hvalues⟩
  | fromRaw i =>
    obtain ⟨values, rfl, hvalues⟩ := hc
    exact elim ⟨values, rfl, hvalues⟩ fun id _ => ⟨values, rfl, hvalues⟩
  | newValue => exact hc.append Value.formed_new.alike
  | shortValue data =>
    rw [Client.act, Client.act]
    cases hv : Value.ofShort data.1 with
    | ok v => exact hc.append (Value.spells_of_ofShort hv).1.alike
    | error fault => exact hc
  | treeValue i => exact hc.spend fun d d' id hd => hd.append (Value.formed_ofTree id).alike
  | copyValue data => exact hc.copyValue data
  | cloneValue i => exact hc.cloneValue i
  | dropValue i => exact hc.dropValue i
  | setBytes i data =>
    exact hc.elimValue fun v w hvw => hc.change _ fun h => Value.endsAlike_setBytes hvw _
  | makeTree i j =>
    exact hc.elimValue fun v w hvw => hc.spend fun d d' root hd =>
      hd.change _ fun h => Value.endsAlike_makeTree hvw root
  | replaceRoot i j =>
    exact hc.elimValue fun v w hvw => hc.spend fun d d' root hd =>
      hd.change _ fun h => Value.endsAlike_replaceRoot hvw root
  | extractRoot i =>
    exact hc.elimValue fun v w hvw => hc.change _ fun h => Value.endsAlike_extractRoot hvw
  | clear i => exact hc.elimValue fun v w hvw => hc.change _ fun h => Value.endsAlike_clear hvw

end Alike

theorem exec_edit (c : Client ρ) (i : Nat) (e : Edit) :
    c.exec (.edit i e) = { c with values := c.values.modify i e.after } := by
  rw [exec, List.modify_eq_set_getElem?]
  cases hi : c.values[i]? with
  | none => rfl
  | some v =>
    show (match e.apply v with | .ok w => _ | .error _ => _) = { c with values := c.values.set i _ }
    cases hw : e.apply v with
    | ok w => rw [Edit.after_of_eq_ok hw]
    | error fault =>
      obtain ⟨hlt, rfl⟩ := List.getElem?_eq_some_iff.1 hi
      rw [Edit.after_of_eq_error hw, List.set_getElem_self hlt]

theorem Alike.modify {f : Value → Value} (hc : c.Alike c')
    (hf : ∀ v w, c.values[i]? = some v → v.Alike w → (f v).Alike (f w)) :
    Client.Alike { c with values := c.values.modify i f }
      { c' with values := c'.values.modify i f } := by
  obtain ⟨values, rfl, hvalues⟩ := hc
  exact ⟨_, rfl, forall₂_modify_both hvalues fun v w hv _ hvw => hf v w hv hvw⟩

/-! ## Deeds -/

end Client

def Deed.grows (c : Client ρ) : Deed ρ → Bool
  | .edit i e => c.values[i]?.any e.grows
  | .act _ => false

namespace Client

/-- A short value is made longer only where all its bytes are written too, just before or just
after. -/
inductive Careful : Client ρ → List (Deed ρ) → Prop
  | nil (c : Client ρ) : Careful c []
  | deed {c : Client ρ} {d : Deed ρ} {rest : List (Deed ρ)} (hd : d.grows c = false)
    (hrest : Careful (c.exec d) rest) : Careful c (d :: rest)
  | writeThenSize {c : Client ρ} {i : Nat} {bytes : List UInt8} {rest : List (Deed ρ)}
    (hrest : Careful ((c.exec (.edit i (.writeAt 0 bytes))).exec (.edit i (.setSize bytes.length)))
      rest) :
    Careful c (.edit i (.writeAt 0 bytes) :: .edit i (.setSize bytes.length) :: rest)
  | sizeThenWrite {c : Client ρ} {i : Nat} {bytes : List UInt8} {rest : List (Deed ρ)}
    (hrest : Careful ((c.exec (.edit i (.setSize bytes.length))).exec (.edit i (.writeAt 0 bytes)))
      rest) :
    Careful c (.edit i (.setSize bytes.length) :: .edit i (.writeAt 0 bytes) :: rest)

variable {c c' : Client ρ} {d : Deed ρ} {deeds : List (Deed ρ)}

theorem Alike.exec (hc : c.Alike c') (hd : d.grows c = false) : (c.exec d).Alike (c'.exec d) := by
  cases d with
  | act a => exact hc.act a
  | edit i e =>
    rw [exec_edit, exec_edit]
    refine hc.modify fun v w hi hvw => hvw.edit ?_
    rw [Deed.grows, hi] at hd
    exact hd

theorem exec_exec_edit (c : Client ρ) (i : Nat) (e e' : Edit) :
    (c.exec (.edit i e)).exec (.edit i e') =
      { c with values := c.values.modify i (e'.after ∘ e.after) } := by
  rw [exec_edit, exec_edit, List.modify_modify_eq]

/-- **Alike clients that do the same with care stay alike.** -/
theorem Careful.alike (hdeeds : Careful c deeds) (hc : c.Alike c') :
    (deeds.foldl exec c).Alike (deeds.foldl exec c') := by
  induction hdeeds generalizing c' with
  | nil c => exact hc
  | deed hd _ ih => exact ih (hc.exec hd)
  | writeThenSize _ ih =>
    refine ih ?_
    rw [exec_exec_edit, exec_exec_edit]
    exact hc.modify fun v w _ hvw => (hvw.fill _).1
  | sizeThenWrite _ ih =>
    refine ih ?_
    rw [exec_exec_edit, exec_exec_edit]
    exact hc.modify fun v w _ hvw => (hvw.fill _).2

/-- **Two short values with the same bytes are alike, whatever was done to make them. Nothing that is
read from alike values tells them apart, and the whole payload is read as the bytes and zeros behind
them. Clients that differ in unused bytes only still do after the same careful deeds; and where all
bytes are written and the size is set, in either order, the value is the one that is made of these
bytes.** -/
theorem unused_bytes_never_show :
    (∀ (before before' : List (Deed ρ)) (v w : Value) (data : List UInt8),
      v ∈ (after before).values → w ∈ (after before').values →
      v.shortBytes? = some data → w.shortBytes? = some data → v.Alike w) ∧
    (∀ (v w : Value), v.Alike w → ∀ h : Heap ρ, Indistinct h v w) ∧
    (∀ (v : Value) (data : List UInt8), v.Spells data →
      v.paddedBytes = .ok (data ++ .replicate (Value.maxShort - data.length) 0)) ∧
    (∀ (v : Value) (data bytes : List UInt8), v.Spells data → bytes.length ≤ Value.maxShort →
      ∃ u, Value.ofShort bytes = .ok u ∧
        (v.writeAt 0 bytes >>= fun w => w.setSize bytes.length) = .ok u ∧
        (v.setSize bytes.length >>= fun w => w.writeAt 0 bytes) = .ok u) ∧
    ∀ (c c' : Client ρ) (deeds : List (Deed ρ)), c.Alike c' → Careful c deeds →
      let d := deeds.foldl exec c
      let d' := deeds.foldl exec c'
      d.Alike d' ∧ List.Forall₂ (Indistinct d.heap) d.values d'.values := by
  refine ⟨?_, fun v w hvw h => hvw.indistinct h, fun v data hv => hv.paddedBytes, ?_, ?_⟩
  · intro before before' v w data hv hw hdata hdata'
    exact .short ⟨(shows_after before).formed v hv, hdata⟩
      ⟨(shows_after before').formed w hw, hdata'⟩
  · intro v data bytes hv hbytes
    have hok := Value.ofShort_eq_ok hbytes
    exact ⟨_, hok, (hv.setSize_writeAt hbytes).trans hok, (hv.writeAt_setSize hbytes).trans hok⟩
  · intro c c' deeds hc hdeeds d d'
    have hd : d.Alike d' := hdeeds.alike hc
    refine ⟨hd, ?_⟩
    obtain ⟨values, hd', hvalues⟩ := hd
    rw [hd']
    exact hvalues.imp fun v w hvw => hvw.indistinct _

def withTail : List (Deed Nat) :=
  [.act .newValue, .edit 0 (.setSize 2), .edit 0 (.writeAt 0 [6, 7, 8]), .act .empty]

def withoutTail : List (Deed Nat) := [.act (.shortValue ⟨[6, 7], by decide⟩), .act .empty]

/-- A value is cloned and made shorter, the clone is filled, and the value is a tree for a while. -/
def cloneAndFill : List (Deed Nat) :=
  [.act (.cloneValue 0), .edit 0 (.setSize 1), .edit 1 (.setSize 3), .edit 1 (.writeAt 0 [4, 5, 6]),
    .act (.makeTree 0 0), .act (.cloneValue 0), .act (.extractRoot 0), .act (.clear 2)]

theorem unused_bytes_never_show_cloneAndFill :
    (after withTail).values ≠ (after withoutTail).values ∧
      (after withTail).Alike (after withoutTail) ∧ Careful (after withTail) cloneAndFill ∧
      let d := cloneAndFill.foldl exec (after withTail)
      let d' := cloneAndFill.foldl exec (after withoutTail)
      d.values.map Value.shortBytes? = [some [], some [4, 5, 6], some []] ∧
        List.Forall₂ (Indistinct d.heap) d.values d'.values := by
  obtain ⟨hbefore, -, -, -, hrun⟩ := @unused_bytes_never_show Nat
  have halike : (after withTail).Alike (after withoutTail) :=
    ⟨_, rfl, .cons (hbefore withTail withoutTail _ _ [6, 7] (List.mem_singleton_self _)
      (List.mem_singleton_self _) rfl rfl) .nil⟩
  have hcareful : Careful (after withTail) cloneAndFill :=
    .deed rfl (.deed rfl (@Careful.sizeThenWrite Nat _ 1 [4, 5, 6] _
      (.deed rfl (.deed rfl (.deed rfl (.deed rfl (.nil _)))))))
  obtain ⟨-, hindistinct⟩ := hrun _ _ _ halike hcareful
  exact ⟨by decide, halike, hcareful, by decide, hindistinct⟩

end Client
end RopeStore
