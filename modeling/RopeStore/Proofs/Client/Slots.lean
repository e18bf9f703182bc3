import Mathlib.Data.List.Basic
import RopeStore.Proofs.InStep
import RopeStore.Proofs.Client.Values
import RopeStore.Proofs.Sampling.Track

/-!
# The sample slots of a client's trees

* `Value.isEitherSampled_eq` : one test of two slots together is as good as one of each;
  `setSample_eq`, `setRoot_eq`, `clone_eq` : what becomes of the slot and of the root of a tree;
* `Call.latest calls` : the address that was set last, told from the calls on a value, the latest first;
* `Meaning.Recalls` : the slot of a tree has that address; `Recalls.specify` : every call keeps that up;
* `Client.histories` : the calls on each value of a client; `recalls_histories` : their slots have what
  was set last, after any deeds;
* `slots_hold_latest_sample` : so that is what is read from them.
-/

namespace RopeStore
open Sampling (Fits)
open Value (Meaning Call)
variable {ρ : Type}

namespace Value
variable {v w : Value} {m : Meaning} {calls : List Call}

/-! ## Trees -/

/-- A well-formed tree is its slot, which is odd, and its root. -/
theorem Formed.exists_tree (hv : v.Formed) (htree : v.isTree = true) :
    ∃ slot root, v = .tree slot root ∧ slot &&& 1 = 1 ∧ v.root? = some root ∧ v.slot = .ok slot := by
  cases v with
  | short control payload =>
    obtain ⟨size, hsize, rfl⟩ := hv
    rw [isTree_short hsize] at htree
    cases htree
  | tree slot root => exact ⟨slot, root, rfl, hv, if_pos htree, if_pos htree⟩

/-- Odd slots together are the null slot only if both are. -/
theorem or_eq_nullSlot_iff {x y : UInt64} (hx : x &&& 1 = 1) (hy : y &&& 1 = 1) :
    x ||| y = nullSlot ↔ x = nullSlot ∧ y = nullSlot := by
  constructor
  · intro hor
    have hnat : x.toNat ||| y.toNat = 1 := congrArg UInt64.toNat hor
    -- A number is at most what it is together with another one, and zero is even.
    have hone : ∀ z : UInt64, z &&& 1 = 1 → z.toNat ≤ 1 → z = nullSlot := by
      intro z hodd hle
      have hmod := congrArg UInt64.toNat hodd
      rw [UInt64.toNat_and] at hmod
      change z.toNat &&& 1 = 1 at hmod
      rw [Nat.and_one_is_mod] at hmod
      apply UInt64.toNat_inj.1
      show z.toNat = 1
      omega
    exact ⟨hone x hx (hnat ▸ Nat.left_le_or), hone y hy (hnat ▸ Nat.right_le_or)⟩
  · rintro ⟨rfl, rfl⟩
    rfl

theorem isEitherSampled_eq (hv : v.Formed) (hw : w.Formed) {x y : Bool}
    (hx : v.isSampled = .ok x) (hy : w.isSampled = .ok y) :
    v.isEitherSampled w = .ok (x || y) := by
  cases v with
  | short control payload => cases hx
  | tree slot root =>
    cases w with
    | short control payload => cases hy
    | tree slot' root' =>
      have hslot : (Value.tree slot root).slot = .ok slot := if_pos (isTree_tree hv)
      have hslot' : (Value.tree slot' root').slot = .ok slot' := if_pos (isTree_tree hw)
      rw [isSampled, hslot] at hx
      rw [isSampled, hslot'] at hy
      cases hx
      cases hy
      rw [isEitherSampled, hslot, hslot']
      show Except.ok (slot ||| slot' != nullSlot) = .ok (slot != nullSlot || slot' != nullSlot)
      congr 1
      rw [Bool.eq_iff_iff, Bool.or_eq_true, bne_iff_ne, bne_iff_ne, bne_iff_ne, ne_eq,
        or_eq_nullSlot_iff hv hw, not_and_or]

/-- The record of a tree can be set to anything. The root stays, and the value is a tree as before. -/
theorem setSample_eq (hv : v.Formed) (htree : v.isTree = true) (record : Option UInt64) :
    ∃ w, v.setSample record = .ok w ∧ w.root? = v.root? ∧ w.isTree = true ∧
      ((∀ a ∈ record, Fits a) → w.Names record) := by
  obtain ⟨slot, root, rfl, -, hroot, -⟩ := hv.exists_tree htree
  have hturns := turns_setSample hv record
  rw [setSample, hroot] at hturns ⊢
  obtain ⟨hformed, hmeaning⟩ := hturns
  have hafter : (Value.tree (record.elim nullSlot (· ||| 1)) root).isTree = true := isTree_tree hformed
  exact ⟨_, rfl, if_pos hafter, hafter, names_of_meaning hformed hmeaning⟩

/-- A tree has what it had in its slot also with another root. -/
theorem setRoot_eq (hv : v.Formed) (htree : v.isTree = true) (root : NodeId) :
    ∃ old w, v.setRoot root = .ok (old, w) ∧ v.root? = some old ∧ w.root? = some root ∧
      w.isTree = true ∧ w.sample = v.sample := by
  obtain ⟨slot, old, rfl, -, hroot, -⟩ := hv.exists_tree htree
  exact ⟨old, .tree slot root, if_pos htree, hroot, if_pos htree, htree, rfl⟩

/-- A clone has the root, which can be shared as long as it is live, and the null slot. -/
theorem clone_eq {root : NodeId} (hroot : v.root? = some root) {h : Heap ρ} {n : Node ρ}
    (hn : h.find? root = some n) :
    ∃ w h', (clone v).run h = .ok w h' ∧ w.root? = some root ∧ w.Names none := by
  have hrun : (clone v).run h =
      .ok (ofTree root) (h.put root { n with refs := ⟨n.refs.packed + RefCount.unit⟩ }) := by
    rw [clone, hroot]
    exact run_bind_of_run_eq_ok (Heap.run_retain hn)
  exact ⟨ofTree root, _, hrun, root?_of_formed (formed_ofTree root), names_ofTree root⟩

/-! ## Calls -/

/-- The address that the slot of a tree has after the calls, the latest first. Another root does not
change it, nor does what is only for short values, and everything else forgets it. -/
def Call.latest : List Call → Option UInt64
  | [] => none
  | .setSample record :: _ => record
  | .replaceRoot _ :: older | .setSize _ :: older | .writeAt _ _ :: older => latest older
  | .setBytes _ :: _ | .makeTree _ :: _ | .extractRoot :: _ | .clear :: _ => none

/-- If this is a tree, it has in its slot what was set last. -/
structure Meaning.Recalls (m : Meaning) (calls : List Call) : Prop where
  slot : ∀ slot ∈ m.slot?, slot = (Call.latest calls).elim nullSlot (· ||| 1)
  fits : ∀ a ∈ Call.latest calls, Fits a

namespace Meaning

theorem recalls_string (content spare : List UInt8) : (string content spare).Recalls [] :=
  ⟨nofun, nofun⟩

/-- Where no address was set, the slot of a tree is the null slot. -/
theorem recalls_tree (root : NodeId) : (tree nullSlot root).Recalls [] :=
  ⟨fun _ hmem => (Option.mem_some.1 hmem).symm, nofun⟩

/-- Every call keeps up that the slot has what was set last. -/
theorem Recalls.specify (hm : m.Recalls calls) (h : Heap ρ) {call : Call}
    (hcall : ∀ a, call = .setSample (some a) → Fits a) :
    (call.specify h m).Recalls (call :: calls) := by
  obtain ⟨hslot, hfits⟩ := hm
  constructor
  case fits =>
    cases call with
    | setBytes | makeTree | extractRoot | clear => exact nofun
    | replaceRoot | setSize | writeAt => exact hfits
    | setSample record =>
      rintro a (rfl : record = some a)
      exact hcall a rfl
  case slot =>
    intro slot hmem
    cases m with
    | string content spare =>
      cases call with
      | makeTree root =>
        cases hmem
        rfl
      | setBytes data | setSize size | writeAt start data =>
        simp only [Call.specify, resize, overwrite] at hmem
        split at hmem <;> cases hmem
      | replaceRoot | extractRoot | clear | setSample => cases hmem
    | tree old root =>
      cases call with
      | setBytes data =>
        simp only [Call.specify] at hmem
        split at hmem <;> cases hmem
      | makeTree root =>
        simp only [Call.specify] at hmem
        split at hmem
        · cases hmem
          rfl
        · cases hmem
      | extractRoot | clear => cases hmem
      | replaceRoot | setSize | writeAt => exact hslot slot hmem
      | setSample record =>
        cases hmem
        rfl

end Meaning

end Value

namespace Client
variable {c c' : Client ρ} {ms ms' : List Meaning} {hist : List (List Call)}

/-! ## Deeds -/

/-- The calls on each value after a deed, the latest first. There were none on a new value. -/
def recorded (c : Client ρ) (hist : List (List Call)) : Deed ρ → List (List Call)
  | .act (.dropValue i) => hist.eraseIdx i
  | .act (.setBytes i data) => hist.modify i (.setBytes data :: ·)
  | .act (.makeTree i j) => c.refs[j]?.elim hist fun root => hist.modify i (.makeTree root :: ·)
  | .act (.replaceRoot i j) => c.refs[j]?.elim hist fun root => hist.modify i (.replaceRoot root :: ·)
  | .act (.extractRoot i) => hist.modify i (.extractRoot :: ·)
  | .act (.clear i) => hist.modify i (.clear :: ·)
  | .edit i e => hist.modify i (e.call :: ·)
  | .act a => hist ++ .replicate ((c.act a).values.length - c.values.length) []

/-- The calls on each value after all deeds in their order, the latest first. -/
def histories (deeds : List (Deed ρ)) : List (List Call) :=
  (deeds.foldl (fun s d => (s.1.exec d, s.1.recorded s.2 d)) ((initial : Client ρ), [])).2

theorem histories_concat (deeds : List (Deed ρ)) (d : Deed ρ) :
    histories (deeds ++ [d]) = (after deeds).recorded (histories deeds) d :=
  foldl_beside_concat recorded [] deeds d

/-- A call on one value. -/
theorem forall₂_recalls_call (hrecalls : List.Forall₂ Meaning.Recalls ms hist) (i : Nat) {call : Call}
    (hcall : ∀ a, call = .setSample (some a) → Fits a) :
    List.Forall₂ Meaning.Recalls (ms.modify i (call.specify c.heap)) (hist.modify i (call :: ·)) :=
  forall₂_modify_both hrecalls fun _ _ _ _ hm => hm.specify c.heap hcall

/-- A call to which a reference is handed over. -/
theorem forall₂_recalls_spend (hrecalls : List.Forall₂ Meaning.Recalls ms hist) (i j : Nat)
    {call : NodeId → Call} (hcall : ∀ root a, call root = .setSample (some a) → Fits a) :
    List.Forall₂ Meaning.Recalls
      (c.refs[j]?.elim ms fun root => ms.modify i ((call root).specify c.heap))
      (c.refs[j]?.elim hist fun root => hist.modify i (call root :: ·)) := by
  cases c.refs[j]? with
  | none => exact hrecalls
  | some root => exact forall₂_recalls_call hrecalls i (hcall root)

/-- At most one value is new. -/
theorem forall₂_recalls_append (hs : c.Shows ms) (hs' : c'.Shows ms')
    (hrecalls : List.Forall₂ Meaning.Recalls ms hist)
    (hms : ms' = ms ∨ ∃ m, ms' = ms ++ [m] ∧ m.Recalls []) :
    List.Forall₂ Meaning.Recalls ms' (hist ++ .replicate (c'.values.length - c.values.length) []) := by
  have hgrown : c'.values.length - c.values.length = ms'.length - ms.length := by
    rw [← hs.meanings, ← hs'.meanings, List.length_map, List.length_map]
  rw [hgrown]
  obtain rfl | ⟨m, rfl, hm⟩ := hms
  · rw [Nat.sub_self, List.replicate_zero, List.append_nil]
    exact hrecalls
  · rw [List.length_append, List.length_singleton, Nat.add_sub_cancel_left]
    exact List.rel_append hrecalls (.cons hm .nil)

theorem forall₂_recalls_act (hs : c.Shows ms) (hrecalls : List.Forall₂ Meaning.Recalls ms hist)
    (a : Act ρ) :
    List.Forall₂ Meaning.Recalls (c.specify ms (.act a)) (c.recorded hist (.act a)) := by
  have hnew := fun hms => forall₂_recalls_append hs (hs.act a) hrecalls hms
  cases a with
  | newValue => exact hnew (.inr ⟨_, rfl, Meaning.recalls_string _ _⟩)
  | shortValue data =>
    refine hnew ?_
    rw [specify]
    split
    · exact .inr ⟨_, rfl, Meaning.recalls_string _ _⟩
    · exact .inl rfl
  | treeValue i =>
    refine hnew ?_
    rw [specify]
    cases c.refs[i]? with
    | none => exact .inl rfl
    | some root => exact .inr ⟨_, rfl, Meaning.recalls_tree root⟩
  | copyValue data =>
    refine hnew (.inr ?_)
    rw [specify]
    split
    · exact ⟨_, rfl, Meaning.recalls_string _ _⟩
    · exact ⟨_, rfl, Meaning.recalls_tree _⟩
  | cloneValue i =>
    refine hnew ?_
    rw [specify]
    split
    · split
      · exact .inr ⟨_, rfl, Meaning.recalls_tree _⟩
      · exact .inl rfl
    · exact .inr ⟨_, rfl, Meaning.recalls_string _ _⟩
    · exact .inl rfl
  | dropValue i => exact forall₂_eraseIdx hrecalls i
  | setBytes i data => exact forall₂_recalls_call hrecalls i fun _ heq => by cases heq
  | makeTree i j => exact forall₂_recalls_spend hrecalls i j fun _ _ heq => by cases heq
  | replaceRoot i j => exact forall₂_recalls_spend hrecalls i j fun _ _ heq => by cases heq
  | extractRoot i => exact forall₂_recalls_call hrecalls i fun _ heq => by cases heq
  | clear i => exact forall₂_recalls_call hrecalls i fun _ heq => by cases heq
  | _ => exact hnew (.inl rfl)

theorem recalls_histories (deeds : List (Deed ρ))
    (hfits : ∀ i a, Deed.edit i (.setSample (some a)) ∈ deeds → Fits a) :
    List.Forall₂ Meaning.Recalls (specified deeds) (histories deeds) := by
  induction deeds using List.reverseRecOn with
  | nil => exact .nil
  | append_singleton deeds d ih =>
    have hrecalls := ih fun i a hmem => hfits i a (List.mem_append_left _ hmem)
    rw [specified_concat, histories_concat]
    cases d with
    | act a => exact forall₂_recalls_act (shows_after deeds) hrecalls a
    | edit i e =>
      refine forall₂_recalls_call hrecalls i fun a heq => ?_
      cases e with
      | setSize | writeAt => cases heq
      | setSample record =>
        obtain rfl : record = some a := Call.setSample.inj heq
        exact hfits i a (List.mem_append_right _ List.mem_cons_self)

/-! ## What is read -/

theorem names_histories (deeds : List (Deed ρ))
    (hfits : ∀ i a, Deed.edit i (.setSample (some a)) ∈ deeds → Fits a) :
    List.Forall₂ (fun v calls => v.isTree = true → v.Names (Call.latest calls))
      (after deeds).values (histories deeds) := by
  have hshows : (after deeds).Shows (specified deeds) := shows_after deeds
  have hrecalls := recalls_histories deeds hfits
  rw [← hshows.meanings, List.forall₂_map_left_iff] at hrecalls
  refine ((List.forall₂_and_left _ _).2 ⟨hshows.formed, hrecalls⟩).imp ?_
  rintro v calls ⟨hv, hm⟩ htree
  obtain ⟨slot, root, rfl, -⟩ := hv.exists_tree htree
  have hslot : slot = _ := hm.slot slot rfl
  exact Value.names_of_meaning hv (congrArg (Meaning.tree · root) hslot) hm.fits

/-- **After every list of deeds, the address that is read from a tree is the one that was set last since
the value became a tree or was cleared, and it is sampled if there is one. Two trees are tested together
as if each was tested alone. What is written into the slot changes neither the root nor the form, another
root leaves the slot alone, and a clone is never sampled.** -/
theorem slots_hold_latest_sample (deeds : List (Deed ρ))
    (hfits : ∀ i a, Deed.edit i (.setSample (some a)) ∈ deeds → Fits a) :
    let c := after deeds
    List.Forall₂ (fun v calls => v.isTree = true →
      v.sample = .ok (Call.latest calls) ∧ v.isSampled = .ok (Call.latest calls).isSome)
      c.values (histories deeds) ∧
    ∀ v ∈ c.values, v.isTree = true →
      (∀ w ∈ c.values, w.isTree = true → ∃ x y, v.isSampled = .ok x ∧ w.isSampled = .ok y ∧
        v.isEitherSampled w = .ok (x || y)) ∧
      (∀ record, ∃ w, v.setSample record = .ok w ∧ w.root? = v.root? ∧ w.isTree = true ∧
        ((∀ a ∈ record, Fits a) → w.sample = .ok record)) ∧
      (∀ root, ∃ old w, v.setRoot root = .ok (old, w) ∧ v.root? = some old ∧ w.root? = some root ∧
        w.isTree = true ∧ w.sample = v.sample) ∧
      ∀ (h : Heap ρ) root n, v.root? = some root → h.find? root = some n →
        ∃ w h', (Value.clone v).run h = .ok w h' ∧ w.root? = some root ∧ w.sample = .ok none := by
  intro c
  have hshows : c.Shows (specified deeds) := shows_after deeds
  have hnames := names_histories deeds hfits
  have hsampled : ∀ v ∈ c.values, v.isTree = true → ∃ x, v.isSampled = .ok x := by
    intro v hv htree
    obtain ⟨slot, root, -, -, -, hslot⟩ := (hshows.formed v hv).exists_tree htree
    exact ⟨_, by rw [Value.isSampled, hslot]; rfl⟩
  refine ⟨hnames.imp fun v calls hn htree => ⟨(hn htree).sample, (hn htree).isSampled⟩, ?_⟩
  intro v hmem htree
  have hv := hshows.formed v hmem
  refine ⟨?_, ?_, Value.setRoot_eq hv htree, ?_⟩
  · intro w hmem' htree'
    obtain ⟨x, hx⟩ := hsampled v hmem htree
    obtain ⟨y, hy⟩ := hsampled w hmem' htree'
    exact ⟨x, y, hx, hy, Value.isEitherSampled_eq hv (hshows.formed w hmem') hx hy⟩
  · intro record
    obtain ⟨w, hset, hroot, htree', hn⟩ := Value.setSample_eq hv htree record
    exact ⟨w, hset, hroot, htree', fun hfits => (hn hfits).sample⟩
  · intro h root n hroot hn
    obtain ⟨w, h', hrun, hroot', hnames⟩ := Value.clone_eq hroot hn
    exact ⟨w, h', hrun, hroot', hnames.sample⟩

/-- A tree is sampled, gets another root, and is cloned. -/
def sampleAndClone : List (Deed Nat) :=
  [.act (.newBuffer 40), .act (.newBuffer 40), .act (.treeValue 0), .edit 0 (.setSample (some 4096)),
    .act (.replaceRoot 0 0), .act (.cloneValue 0)]

theorem slots_hold_latest_sample_sampleAndClone :
    (∀ i a, Deed.edit i (.setSample (some a)) ∈ sampleAndClone → Fits a) ∧
      histories sampleAndClone = [[.replaceRoot ⟨2⟩, .setSample (some 4096)], []] ∧
      ∃ v w, (after sampleAndClone).values = [v, w] ∧ v.sample = .ok (some 4096) ∧
        w.sample = .ok none ∧ v.isEitherSampled w = .ok true := by
  have hfits : ∀ i a, Deed.edit i (.setSample (some a)) ∈ sampleAndClone → Fits a := by
    intro i a hmem
    obtain ⟨rfl, rfl⟩ : i = 0 ∧ a = 4096 := by simpa [sampleAndClone] using hmem
    decide
  obtain ⟨hread, hrest⟩ := slots_hold_latest_sample sampleAndClone hfits
  have hhist : histories sampleAndClone = [[.replaceRoot ⟨2⟩, .setSample (some 4096)], []] := by rfl
  have hvalues : (after sampleAndClone).values = [.tree 4097 ⟨2⟩, .tree Value.nullSlot ⟨2⟩] := by rfl
  rw [hvalues, hhist] at hread
  rw [hvalues] at hrest
  obtain _ | ⟨hv, _ | ⟨hw, -⟩⟩ := hread
  obtain ⟨hsample, hsampled⟩ := hv rfl
  obtain ⟨hsample', hsampled'⟩ := hw rfl
  obtain ⟨x, y, hx, hy, heither⟩ :=
    (hrest _ List.mem_cons_self rfl).1 _ (List.mem_cons_of_mem _ List.mem_cons_self) rfl
  cases hsampled.symm.trans hx
  cases hsampled'.symm.trans hy
  exact ⟨hfits, hhist, _, _, hvalues, hsample, hsample', heither⟩

end Client
end RopeStore
