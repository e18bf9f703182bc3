import Mathlib.Data.List.Basic
import Mathlib.Data.List.InsertIdx
import RopeStore.Proofs.Client.Deeds
import RopeStore.Proofs.Value.Calls

/-!
# The values of a client

* `Client.specify c ms d` : what the values mean after the deed `d`, if they meant `ms` before;
  `Client.specified` : after all deeds in their order;
* `Client.Shows c ms` : the values are well formed and mean `ms`; `Shows.exec` : every deed keeps
  that up, also one that faults;
* `values_are_well_formed` : what holds of the values after all deeds;
* `crowd_breaks_trees` : what too many owners do to a tree.
-/

namespace RopeStore
open Value (Meaning Call)
variable {ρ α : Type}

def Edit.call : Edit → Call
  | .setSize size => .setSize size
  | .writeAt start data => .writeAt start data
  | .setSample record => .setSample record

theorem Edit.turns {v : Value} (hv : v.Formed) (h : Heap ρ) (e : Edit) :
    v.Turns (e.call.specify h v.meaning) (e.apply v) := by
  cases e with
  | setSize size => exact Value.turns_setSize hv size
  | writeAt start data => exact Value.turns_writeAt hv start data
  | setSample record => exact Value.turns_setSample hv record

namespace Client
variable {c : Client ρ} {i : Nat} {v : Value} {ms : List Meaning}

/-- What the values mean after a deed, if they meant `ms` before. Calls that fault included; whether a
root can be shared or given up is for the heap to say. -/
def specify (c : Client ρ) (ms : List Meaning) : Deed ρ → List Meaning
  | .act .newValue => ms ++ [.string [] (.replicate Value.maxShort 0)]
  | .act (.shortValue data) => if data.1.length ≤ Value.maxShort then ms ++ [.text data] else ms
  | .act (.treeValue i) => c.refs[i]?.elim ms fun id => ms ++ [.tree Value.nullSlot id]
  | .act (.copyValue data) =>
    if data.1.length ≤ Value.maxShort then ms ++ [.text data]
    else ms ++ [.tree Value.nullSlot c.heap.next]
  | .act (.cloneValue i) =>
    match ms[i]? with
    | some (.tree _ root) =>
      if c.heap.succeeds (Heap.retain root) then ms ++ [.tree Value.nullSlot root] else ms
    | some (.string content spare) => ms ++ [.string content spare]
    | none => ms
  | .act (.dropValue i) => ms.eraseIdx i
  | .act (.setBytes i data) => ms.modify i ((Call.setBytes data).specify c.heap)
  | .act (.makeTree i j) =>
    c.refs[j]?.elim ms fun root => ms.modify i ((Call.makeTree root).specify c.heap)
  | .act (.replaceRoot i j) =>
    c.refs[j]?.elim ms fun root => ms.modify i ((Call.replaceRoot root).specify c.heap)
  | .act (.extractRoot i) => ms.modify i (Call.extractRoot.specify c.heap)
  | .act (.clear i) => ms.modify i (Call.clear.specify c.heap)
  | .edit i e => ms.modify i (e.call.specify c.heap)
  | _ => ms

/-- What the values mean after all deeds in their order, begun with nothing. -/
def specified (deeds : List (Deed ρ)) : List Meaning :=
  (deeds.foldl (fun s d => (s.1.exec d, s.1.specify s.2 d)) ((initial : Client ρ), [])).2

/-- Something is noted at each deed, beside the client. -/
theorem foldl_beside_concat {σ : Type} (note : Client ρ → σ → Deed ρ → σ) (blank : σ)
    (deeds : List (Deed ρ)) (d : Deed ρ) :
    let noted deeds := (deeds.foldl (fun s d => (s.1.exec d, note s.1 s.2 d)) (initial, blank)).2
    noted (deeds ++ [d]) = note (after deeds) (noted deeds) d := by
  have hclient : ∀ deeds : List (Deed ρ),
      (deeds.foldl (fun s d => (s.1.exec d, note s.1 s.2 d)) (initial, blank)).1 = after deeds := by
    intro deeds
    induction deeds using List.reverseRecOn with
    | nil => rfl
    | append_singleton deeds d ih => rw [List.foldl_append, List.foldl_cons, List.foldl_nil, ih, after_concat]
  dsimp only
  rw [List.foldl_append, List.foldl_cons, List.foldl_nil, hclient]

theorem specified_concat (deeds : List (Deed ρ)) (d : Deed ρ) :
    specified (deeds ++ [d]) = (after deeds).specify (specified deeds) d :=
  foldl_beside_concat specify [] deeds d

/-- The values are well formed and mean `ms`. -/
structure Shows (c : Client ρ) (ms : List Meaning) : Prop where
  formed : ∀ v ∈ c.values, v.Formed
  meanings : c.values.map Value.meaning = ms

theorem shows_initial : (initial : Client ρ).Shows [] := ⟨by simp [initial], rfl⟩

namespace Shows

theorem same {c' : Client ρ} (hs : c.Shows ms) (hvalues : c'.values = c.values) : c'.Shows ms :=
  ⟨by rw [hvalues]; exact hs.formed, by rw [hvalues, hs.meanings]⟩

theorem getElem? (hs : c.Shows ms) (i : Nat) : ms[i]? = c.values[i]?.map Value.meaning := by
  rw [← hs.meanings, List.getElem?_map]

theorem append {c' : Client ρ} {w : Value} {m : Meaning} (hs : c.Shows ms) (hw : w.Denotes m)
    (hvalues : c'.values = c.values ++ [w]) : c'.Shows (ms ++ [m]) := by
  refine ⟨fun v hv => ?_, ?_⟩
  · rw [hvalues, List.mem_append, List.mem_singleton] at hv
    rcases hv with hv | rfl
    · exact hs.formed v hv
    · exact hw.1
  · rw [hvalues, List.map_append, hs.meanings, List.map_singleton, hw.2]

theorem set {c' : Client ρ} {w : Value} {f : Meaning → Meaning} (hs : c.Shows ms)
    (hi : c.values[i]? = some v) (hw : w.Denotes (f v.meaning))
    (hvalues : c'.values = c.values.set i w) : c'.Shows (ms.modify i f) := by
  refine ⟨fun v' hv' => ?_, ?_⟩
  · rw [hvalues] at hv'
    rcases List.mem_or_eq_of_mem_set hv' with hv' | rfl
    · exact hs.formed v' hv'
    · exact hw.1
  · rw [hvalues, List.map_set, hs.meanings, hw.2, List.modify_eq_set_getElem?, hs.getElem? i, hi]
    rfl

theorem modify_eq_self (hs : c.Shows ms) (hi : c.values[i]? = none) (f : Meaning → Meaning) :
    ms.modify i f = ms := by
  rw [List.modify_eq_set_getElem?, hs.getElem? i, hi]
  rfl

/-- A value that is named by its position is changed. -/
theorem elim {f : Meaning → Meaning} {use : Value → Client ρ} (hs : c.Shows ms)
    (huse : ∀ v, c.values[i]? = some v → (use v).Shows (ms.modify i f)) :
    (c.values[i]?.elim c use).Shows (ms.modify i f) := by
  cases hi : c.values[i]? with
  | none =>
    rw [hs.modify_eq_self hi]
    exact hs
  | some v => exact huse v hi

theorem change {op : Value.ValueM ρ α} {m : Meaning → Meaning} (hs : c.Shows ms)
    (hi : c.values[i]? = some v) (handed : α → List NodeId)
    (hop : Leaves op ⟨c.heap, v⟩ (fun _ s => s.value.Denotes (m v.meaning))
      fun _ s => s.value.Denotes (m v.meaning)) :
    (c.change i v op handed).Shows (ms.modify i m) := by
  unfold Leaves at hop
  unfold Client.change
  cases hrun : op.run ⟨c.heap, v⟩ with
  | ok a s =>
    rw [hrun] at hop
    exact hs.set hi hop rfl
  | error fault s =>
    rw [hrun] at hop
    exact hs.set hi hop rfl

theorem call {op : Value.ValueM ρ α} {call : Call} (hs : c.Shows ms) (hi : c.values[i]? = some v)
    (handed : α → List NodeId) (hop : (call.run : Value.ValueM ρ Unit) = do let _ ← op) :
    (c.change i v op handed).Shows (ms.modify i (call.specify c.heap)) := by
  refine hs.change hi handed ?_
  have hends := Call.ends_run (hs.formed v (List.mem_of_getElem? hi)) c.heap call
  rw [Call.Ends, hop] at hends
  exact (leaves_bind.1 hends).mono (fun _ _ hd => hd) fun _ _ hd => hd.1

end Shows

theorem values_keep (c : Client ρ) (op : HeapM ρ NodeId) : (c.keep op).values = c.values := by
  unfold keep
  split <;> rfl

theorem values_perform (c : Client ρ) (op : HeapM ρ α) : (c.perform op).values = c.values := by
  unfold perform
  split <;> rfl

theorem values_elim {β : Type} {o : Option β} {use : β → Client ρ}
    (huse : ∀ x, (use x).values = c.values) : (o.elim c use).values = c.values := by
  cases o with
  | none => rfl
  | some x => exact huse x

namespace Shows

theorem spend {f : NodeId → List Meaning} {use : Client ρ → NodeId → Client ρ} (hs : c.Shows ms)
    (huse : ∀ id rest, rest.Shows ms → rest.heap = c.heap → rest.values = c.values →
      (use rest id).Shows (f id)) :
    (c.spend i use).Shows (c.refs[i]?.elim ms f) := by
  unfold Client.spend
  cases c.refs[i]? with
  | none => exact hs
  | some id => exact huse id _ (hs.same rfl) rfl rfl

theorem copyValue (hs : c.Shows ms) (data : Bytes) :
    (c.act (.copyValue data)).Shows (c.specify ms (.act (.copyValue data))) := by
  rw [specify, Client.act, keepValue, Value.copy]
  by_cases hdata : data.1.length ≤ Value.maxShort
  · rw [if_pos hdata, if_pos hdata, Value.ofShort, if_pos hdata]
    exact hs.append ⟨Value.formed_padded hdata _, Value.meaning_padded hdata _⟩ rfl
  · obtain ⟨b, hrun, -⟩ := Heap.run_ofBytes data.2 c.heap
    rw [if_neg hdata, if_neg hdata, run_bind_of_run_eq_ok hrun]
    exact hs.append ⟨Value.formed_ofTree _, Value.meaning_ofTree _⟩ rfl

theorem cloneValue (hs : c.Shows ms) (i : Nat) :
    (c.act (.cloneValue i)).Shows (c.specify ms (.act (.cloneValue i))) := by
  rw [specify, Client.act, hs.getElem? i]
  cases hi : c.values[i]? with
  | none => exact hs
  | some v =>
    have hv := hs.formed v (List.mem_of_getElem? hi)
    rw [Option.elim_some, Option.map_some, keepValue, Value.clone]
    cases v with
    | short control payload => exact hs.append ⟨hv, rfl⟩ rfl
    | tree slot root =>
      rw [Value.root?_of_formed hv]
      show Shows _ (if c.heap.succeeds (Heap.retain root) then _ else _)
      rw [Heap.succeeds]
      cases hrun : (Heap.retain root).run c.heap with
      | ok _ heap =>
        rw [run_bind_of_run_eq_ok hrun]
        exact hs.append ⟨Value.formed_ofTree root, Value.meaning_ofTree root⟩ rfl
      | error fault heap =>
        rw [run_bind_of_run_eq_error hrun]
        exact hs.same rfl

theorem dropValue (hs : c.Shows ms) (i : Nat) :
    (c.act (.dropValue i)).Shows (c.specify ms (.act (.dropValue i))) := by
  have hvalues : (c.act (.dropValue i)).values = c.values.eraseIdx i := by
    rw [Client.act]
    cases hi : c.values[i]? with
    | none => exact (List.eraseIdx_of_length_le (List.getElem?_eq_none_iff.1 hi)).symm
    | some v =>
      rw [Option.elim_some]
      split <;> rfl
  refine ⟨fun v hv => hs.formed v ?_, ?_⟩
  · rw [hvalues] at hv
    exact List.mem_of_mem_eraseIdx hv
  · rw [hvalues, ← List.eraseIdx_map, hs.meanings]
    rfl

theorem spendOn {op : NodeId → Value.ValueM ρ α} {call : NodeId → Call} (hs : c.Shows ms)
    (i j : Nat) (handed : α → List NodeId)
    (hop : ∀ root, ((call root).run : Value.ValueM ρ Unit) = do let _ ← op root) :
    (c.values[i]?.elim c fun v => c.spend j fun c root => c.change i v (op root) handed).Shows
      (c.refs[j]?.elim ms fun root => ms.modify i ((call root).specify c.heap)) := by
  cases hi : c.values[i]? with
  | none =>
    cases c.refs[j]? with
    | none => exact hs
    | some root =>
      rw [Option.elim_some, hs.modify_eq_self hi]
      exact hs
  | some v =>
    show (c.spend j fun c root => c.change i v (op root) handed).Shows _
    refine hs.spend fun root rest hrest hheap hvalues => ?_
    rw [← hheap]
    exact hrest.call (hvalues ▸ hi) handed (hop root)

theorem act (hs : c.Shows ms) (a : Act ρ) : (c.act a).Shows (c.specify ms (.act a)) := by
  cases a with
  | newBuffer length => exact hs.same (values_keep c _)
  | newLargeBuffer length => exact hs.same (values_keep c _)
  | ofBytes data => exact hs.same (values_keep c _)
  | bufferWithExtra data extra => exact hs.same (values_keep c _)
  | lend bytes owner => exact hs.same (values_keep c _)
  | newStatic bytes => exact hs.same rfl
  | ofStatic i => exact hs.same (values_elim fun _ => values_keep c _)
  | empty => exact hs.same (values_keep c _)
  | part of pos count => exact hs.same (values_elim fun _ => values_keep c _)
  | partOrCopy of pos count => exact hs.same (values_elim fun _ => values_keep c _)
  | append i data => exact hs.same (values_elim fun _ => values_perform c _)
  | clone of => exact hs.same (values_elim fun _ => values_keep c _)
  | drop i => exact hs.same (values_elim fun _ => values_perform _ _)
  | intoRaw i => exact hs.same (values_elim fun _ => rfl)
  | fromRaw i => exact hs.same (values_elim fun _ => rfl)
  | newValue => exact hs.append ⟨Value.formed_new, Value.meaning_new⟩ rfl
  | shortValue data =>
    rw [specify, Client.act, Value.ofShort]
    by_cases hdata : data.1.length ≤ Value.maxShort
    · rw [if_pos hdata, if_pos hdata]
      exact hs.append ⟨Value.formed_padded hdata _, Value.meaning_padded hdata _⟩ rfl
    · rw [if_neg hdata, if_neg hdata]
      exact hs
  | treeValue i =>
    show (c.spend i fun c id => { c with values := c.values ++ [Value.ofTree id] }).Shows
      (c.refs[i]?.elim ms fun id => ms ++ [.tree Value.nullSlot id])
    exact hs.spend fun id rest hrest _ _ =>
      hrest.append ⟨Value.formed_ofTree id, Value.meaning_ofTree id⟩ rfl
  | copyValue data => exact hs.copyValue data
  | cloneValue i => exact hs.cloneValue i
  | dropValue i => exact hs.dropValue i
  | setBytes i data => exact hs.elim fun v hi => hs.call hi _ bind_pure_unit.symm
  | makeTree i j => exact hs.spendOn i j _ fun root => bind_pure_unit.symm
  | replaceRoot i j => exact hs.spendOn i j _ fun root => rfl
  | extractRoot i => exact hs.elim fun v hi => hs.call hi _ rfl
  | clear i => exact hs.elim fun v hi => hs.call hi _ bind_pure_unit.symm

theorem exec (hs : c.Shows ms) (d : Deed ρ) : (c.exec d).Shows (c.specify ms d) := by
  cases d with
  | act a => exact hs.act a
  | edit i e =>
    refine hs.elim fun v hi => ?_
    have hv := hs.formed v (List.mem_of_getElem? hi)
    have hturns := e.turns hv c.heap
    cases hw : e.apply v with
    | ok w =>
      rw [hw] at hturns
      exact hs.set hi hturns rfl
    | error fault =>
      rw [hw] at hturns
      refine hs.set hi ⟨hv, hturns⟩ ?_
      obtain ⟨hlt, rfl⟩ := List.getElem?_eq_some_iff.1 hi
      exact (List.set_getElem_self hlt).symm

end Shows

theorem shows_after (deeds : List (Deed ρ)) : (after deeds).Shows (specified deeds) := by
  induction deeds using List.reverseRecOn with
  | nil => exact shows_initial
  | append_singleton deeds d ih =>
    rw [after_concat, specified_concat]
    exact ih.exec d

/-! ## The roots -/

theorem count_roots (values : List Value) (id : NodeId) :
    (values.flatMap Value.roots).count id = values.countP fun v => v.root? = some id := by
  induction values with
  | nil => rfl
  | cons v rest ih =>
    rw [List.flatMap_cons, List.count_append, List.countP_cons, ih, Nat.add_comm, Value.roots]
    congr 1
    cases v.root? with
    | none => rfl
    | some root => simp [List.count_singleton]

/-- A root that is held can be shared, and given up where no count is full. -/
theorem succeeds_of_root (hs : c.Sane) {root : NodeId} (hi : c.values[i]? = some v)
    (hroot : v.root? = some root) :
    c.heap.succeeds (Heap.retain root) = true ∧
      ((∀ id, c.owners id < RefCount.bound) → c.heap.succeeds (Heap.release root) = true) := by
  obtain ⟨n, hn⟩ := hs.owned.live (mem_held_of_root hi hroot)
  refine ⟨by rw [Heap.succeeds, Heap.run_retain hn], fun hfew => ?_⟩
  have hperm : c.held.Perm (root :: held { c with values := c.values.eraseIdx i }) := by
    have hvalue := held_perm_of_value hi
    rwa [Value.roots_of_some hroot] at hvalue
  have hf : Few c.heap (root :: held { c with values := c.values.eraseIdx i }) := fun id => by
    rw [← hperm.count_eq, ← owners_eq]
    exact hfew id
  obtain ⟨_, heap, hrun, -⟩ := (Heap.ends_release (hs.owned.perm hperm.symm) hf).run_eq_ok
  rw [Heap.succeeds, hrun]

/-- **After every list of deeds, calls that fault included, every value is well formed, everything
read from it is what its meaning says, and the meanings are those that the operations specify. A call
that faults leaves the value as it was, or the empty one: where too many bytes were to replace a tree,
after one release of the root, and where the root of a tree could not be given up.** Every tree owns
one reference to its root, which is live and can be read, as long as no node has had more owners than
there are words for its count. A root can be given up as long as every count is below its bound. -/
theorem values_are_well_formed (deeds : List (Deed ρ)) :
    let c := after deeds
    (∀ v ∈ c.values, v.Agrees c.heap v.meaning) ∧
    c.values.map Value.meaning = specified deeds ∧
    (∀ v ∈ c.values, ∀ (call : Call) fault s, call.run.run ⟨c.heap, v⟩ = .error fault s →
      Call.Left c.heap v call s) ∧
    (Uncrowded deeds →
      ∀ v ∈ c.values, ∀ root, v.root? = some root →
        (∃ n, c.heap.find? root = some n ∧ Counts n (c.owners root)) ∧
        c.owners root = c.refs.count root + c.raws.count root +
          (c.values.countP fun v => v.root? = some root) + c.heap.viewsOver root ∧
        (∃ data, v.bytes c.heap = .ok data ∧ v.length c.heap = .ok data.length) ∧
        c.heap.succeeds (Heap.retain root) = true ∧
        ((∀ id, c.owners id < RefCount.bound) →
          c.heap.succeeds (Heap.release root) = true)) := by
  intro c
  have hshows : c.Shows (specified deeds) := shows_after deeds
  refine ⟨fun v hv => (hshows.formed v hv).agrees c.heap, hshows.meanings, ?_, ?_⟩
  · intro v hv call fault s hrun
    have hends := Call.ends_run (hshows.formed v hv) c.heap call
    rw [Call.Ends, Leaves, hrun] at hends
    exact hends.2
  · intro hu v hv root hroot
    have hs := hu.sane
    obtain ⟨i, hi⟩ := List.mem_iff_getElem?.1 hv
    obtain ⟨n, hn⟩ := hs.owned.live (mem_held_of_root hi hroot)
    have hcounts := hs.owned.counts hn
    obtain ⟨data, hdata, hbytes, hlength⟩ := Heap.bytes_eq_ok hs.owned (Heap.body?_of_find? hn)
    refine ⟨⟨n, hn, by rw [owners_eq]; exact hcounts⟩, by rw [owners, count_roots], ⟨data, ?_, ?_⟩,
      succeeds_of_root hs hi hroot⟩
    · rw [Value.bytes, hroot]
      exact hbytes
    · rw [Value.length, hroot, hlength]
      exact Heap.length_eq_ok (Heap.body?_of_find? hn)

/-! ## Too many owners -/

def loneTree : List (Deed Nat) := [.act (.copyValue ⟨List.replicate 16 7, by decide⟩)]

/-- Its root has one owner more than its count may have to give one up. -/
def crowdedTree : List (Deed Nat) :=
  loneTree ++ List.replicate (RefCount.bound - 1) (.act (.clone (.root 0)))

/-- The root has more owners than there are words for its count, and one of them is given up. -/
def lostRoot : List (Deed Nat) :=
  loneTree ++ List.replicate RefCount.period (.act (.clone (.root 0))) ++ [.act (.drop 0)]

theorem after_loneTree_clones (k : Nat) :
    after (loneTree ++ List.replicate k (.act (.clone (.root 0)))) =
      { after loneTree with
        heap := (after loneTree).heap.put ⟨1⟩ ⟨.ofNat (1 + k), .buffer 4 (List.replicate 16 7)⟩
        refs := (after loneTree).refs ++ List.replicate k ⟨1⟩ } := by
  have hp : (after loneTree).find? (.root 0) = some ⟨1⟩ := by decide
  have hn : (after loneTree).heap.find? ⟨1⟩ =
      some ⟨.ofNat 1, .buffer 4 (List.replicate 16 7)⟩ := by decide
  exact after_clones hp hn k

theorem clear_crowdedTree :
    Value.ofTree ⟨1⟩ ∈ (after crowdedTree).values ∧
      ∃ heap, (Call.clear.run : Value.ValueM Nat Unit).run
          ⟨(after crowdedTree).heap, Value.ofTree ⟨1⟩⟩ =
        .error (.assertion .countHeld) ⟨heap, Value.cleared⟩ := by
  have hcount : 1 + (RefCount.bound - 1) = RefCount.bound := by decide
  rw [crowdedTree, after_loneTree_clones, hcount]
  exact ⟨List.mem_singleton_self _, _, rfl⟩

theorem root_after_lostRoot :
    Value.ofTree ⟨1⟩ ∈ (after lostRoot).values ∧ (after lostRoot).heap.find? ⟨1⟩ = none := by
  rw [lostRoot, after_concat, after_loneTree_clones, RefCount.ofNat_add_period]
  exact ⟨List.mem_singleton_self _, by decide⟩

/-- **A count that is too high faults where a reference is given up. So a tree that is cleared is left
empty by a call that faulted; and a count that has run over takes one of many references for the last, so
that a tree is left whose root is gone.** -/
theorem crowd_breaks_trees :
    (¬ ∀ v ∈ (after crowdedTree).values, ∀ (call : Call) fault s,
      call.run.run ⟨(after crowdedTree).heap, v⟩ = .error fault s →
      s.value = v ∨ ∃ data root, call = .setBytes data ∧ Value.maxShort < data.length ∧
        v.root? = some root ∧
        (Heap.release root).run (after crowdedTree).heap = .ok () s.heap ∧
        s.value.meaning = .text []) ∧
    ¬ ∀ v ∈ (after lostRoot).values, ∀ root, v.root? = some root →
      ∃ n, (after lostRoot).heap.find? root = some n := by
  refine ⟨fun hall => ?_, fun hall => ?_⟩
  · obtain ⟨hmem, heap, hrun⟩ := clear_crowdedTree
    rcases hall _ hmem .clear _ _ hrun with hsame | ⟨data, root, hcall, -⟩
    · cases hsame
    · cases hcall
  · obtain ⟨hmem, hgone⟩ := root_after_lostRoot
    obtain ⟨n, hn⟩ := hall _ hmem ⟨1⟩ (by decide)
    rw [hgone] at hn
    cases hn

end Client
end RopeStore
