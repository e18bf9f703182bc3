import Mathlib.Data.List.Basic
import RopeStore.Trial.Mutation
import RopeStore.Proofs.Random
import RopeStore.Proofs.Trial.Fields

/-!
# What a mutation does to a list

* `Mutation shrink ops ops'` : the ways in which one mutation may change a list;
* `mem_candidates_iff` : what the candidates of a list are;
* `guardedMutate` : the mutation that stops where it asks for something that is not there: a position in
  an empty list, a place behind the end, a value below zero;
* `keeps_insert`, `keeps_remove`, `keeps_field`, `keeps_retarget`, `keeps_dropNode`, `keeps_snapshot` : no
  candidate stops, and each is one of these ways; `keeps_mutate` : so it is for the whole mutation;
* `Mutation.length_le`, `Mutation.length_encode_le` : in shrink mode neither the list nor its written form
  gets longer, and `shrunk_le` : neither do they along a row of mutations;
* `every_mutation_is_one_change` : all this for every list, mode and generator.
-/

namespace RopeStore.Trial
open RopeStore.Random
variable {shrink : Bool} {ops ops' : List Op}

/-! ## The changes -/

/-- One mutation changes a list in one of these ways, and leaves all other operations as they are and in
their order. -/
inductive Mutation (shrink : Bool) : List Op → List Op → Prop
  | inserted (before after : List Op) (op : Op) (hshrink : shrink = false) :
    Mutation shrink (before ++ after) (before ++ op :: after)
  | removed (before after : List Op) (op : Op) :
    Mutation shrink (before ++ op :: after) (before ++ after)
  /-- A field was set to a value of its type, a smaller one in shrink mode. -/
  | changed (before after : List Op) {op op' : Op} {place value : Nat} {f : Field}
    (hchange : op.Changes place f value op') (hless : shrink = true → value < f.value) :
    Mutation shrink (before ++ op :: after) (before ++ op' :: after)
  /-- An operation was made to work on a node that an operation of the list makes. -/
  | retargeted (before after : List Op) {op op' maker : Op} {place : Nat} {f : Field} {id : UInt32}
    (hmaker : maker ∈ before ++ op :: after) (hid : maker.createdNode? = some id)
    (hname : f.name = op.targetName) (hchange : op.Changes place f id.toNat op') :
    Mutation shrink (before ++ op :: after) (before ++ op' :: after)
  /-- The drop of a node was inserted behind an operation that makes it. -/
  | dropped (before after : List Op) {maker : Op} {id : UInt32} (hshrink : shrink = false)
    (hmaker : maker ∈ before) (hid : maker.createdNode? = some id) :
    Mutation shrink (before ++ after) (before ++ .dropNode id :: after)
  | surrounded (before middle after : List Op) (id : UInt32) (hshrink : shrink = false) :
    Mutation shrink (before ++ (middle ++ after))
      (before ++ .newSnapshot id :: (middle ++ .dropSnapshot id :: after))
  | unchanged (ops : List Op) (hnone : ∀ op ∈ ops, op.createdNode? = none) : Mutation shrink ops ops

/-! ### Edits of lists -/

section Edits
variable {α : Type} {xs : List α} {i : Nat}

theorem insertIdx_of_le (h : i ≤ xs.length) (x : α) :
    xs.insertIdx i x = xs.take i ++ x :: xs.drop i := by
  induction xs generalizing i with
  | nil =>
    obtain rfl : i = 0 := by simpa using h
    rfl
  | cons y rest ih =>
    cases i with
    | zero => rfl
    | succ i => simp [ih (Nat.le_of_succ_le_succ h)]

/-- What is inserted behind `y` is inserted behind all that stands in front of `y`. -/
theorem insertIdx_append_cons (before after : List α) (y x : α) (i : Nat) :
    (before ++ y :: after).insertIdx (before.length + 1 + i) x =
      before ++ y :: after.insertIdx i x := by
  induction before with
  | nil => simp [Nat.add_comm 1]
  | cons z rest ih =>
    have hsucc : (z :: rest).length + 1 + i = rest.length + 1 + i + 1 := by
      rw [List.length_cons]
      omega
    rw [hsucc, List.cons_append, List.insertIdx_succ_cons, ih, List.cons_append]

theorem take_cons_drop {x : α} (h : xs[i]? = some x) : xs = xs.take i ++ x :: xs.drop (i + 1) := by
  obtain ⟨hlt, rfl⟩ := List.getElem?_eq_some_iff.1 h
  rw [List.getElem_cons_drop, List.take_append_drop]

end Edits

/-! ## The candidates -/

/-- What a candidate needs of a list. -/
def Candidate.Offered (shrink : Bool) (ops : List Op) : Candidate → Prop
  | .insert | .dropNode | .snapshot => shrink = false
  | .remove => ops ≠ []
  | .field i place => ∃ op f, ops[i]? = some op ∧ op.fields[place]? = some f ∧
      (shrink = true → f.value ≠ 0)
  | .retarget => True

theorem mem_fieldCandidates_iff {op : Op} {i : Nat} {c : Candidate} :
    c ∈ fieldCandidates shrink op i ↔
      ∃ place f, c = .field i place ∧ op.fields[place]? = some f ∧ (shrink = true → f.value ≠ 0) := by
  have hkept : ∀ f : Field,
      (!(shrink && f.value == 0)) = true ↔ (shrink = true → f.value ≠ 0) := by
    intro f
    cases shrink <;> simp
  simp only [fieldCandidates, List.mem_map, List.mem_filter, List.mem_zipIdx_iff_getElem?, hkept]
  constructor
  · rintro ⟨⟨f, place⟩, ⟨hf, hkeep⟩, rfl⟩
    exact ⟨place, f, rfl, hf, hkeep⟩
  · rintro ⟨place, f, rfl, hf, hkeep⟩
    exact ⟨(f, place), ⟨hf, hkeep⟩, rfl⟩

/-- The candidates of a list are those that it has what they need for. -/
theorem mem_candidates_iff {c : Candidate} :
    c ∈ candidates shrink ops ↔ c.Offered shrink ops := by
  have hfields : c ∈ (ops.zipIdx.flatMap fun entry => fieldCandidates shrink entry.1 entry.2) ↔
      ∃ i place op f, c = .field i place ∧ ops[i]? = some op ∧ op.fields[place]? = some f ∧
        (shrink = true → f.value ≠ 0) := by
    simp only [List.mem_flatMap, List.mem_zipIdx_iff_getElem?, mem_fieldCandidates_iff, Prod.exists]
    constructor
    · rintro ⟨op, i, hop, place, f, rfl, hf, hkeep⟩
      exact ⟨i, place, op, f, rfl, hop, hf, hkeep⟩
    · rintro ⟨i, place, op, f, rfl, hop, hf, hkeep⟩
      exact ⟨op, i, hop, place, f, rfl, hf, hkeep⟩
  simp only [candidates, List.mem_append, hfields]
  cases c <;> cases shrink <;> cases ops <;> simp [Candidate.Offered]

theorem candidates_ne_nil (shrink : Bool) (ops : List Op) : candidates shrink ops ≠ [] := by
  have hretarget : Candidate.retarget.Offered shrink ops := trivial
  exact List.ne_nil_of_mem (mem_candidates_iff.2 hretarget)

theorem mem_creations_iff {made : Nat} {id : UInt32} :
    (made, id) ∈ creations ops ↔ ∃ op, ops[made]? = some op ∧ op.createdNode? = some id := by
  simp only [creations, List.mem_filterMap, List.mem_zipIdx_iff_getElem?, Prod.exists,
    Option.map_eq_some_iff, Prod.mk.injEq]
  constructor
  · rintro ⟨op, i, hop, id', hid, rfl, rfl⟩
    exact ⟨op, hop, hid⟩
  · rintro ⟨op, hop, hid⟩
    exact ⟨op, made, hop, id, hid, rfl, rfl⟩

theorem createdNode?_of_creations_eq_nil (h : creations ops = []) {op : Op} (hop : op ∈ ops) :
    op.createdNode? = none := by
  cases hid : op.createdNode? with
  | none => rfl
  | some id =>
    obtain ⟨made, hmade⟩ := List.getElem?_of_mem hop
    have hmem := mem_creations_iff.2 ⟨op, hmade, hid⟩
    rw [h] at hmem
    cases hmem

/-! ## Mutations that stop -/

/-- A member of a list, if there is one. The position that is drawn must be there. -/
def guardedMember {α : Type} (xs : List α) : Guarded (Option α) := do
  match ← OptionT.lift (index xs.length) with
  | none => return none
  | some i => return some (← there xs[i]?)

def guardedOp : Guarded Op := do
  let variant ← position 10
  OptionT.lift (drawFields variant)

/-- Applies a candidate. A position is only drawn where there is one, an operation is only put where the
list reaches, a difference is only taken of a number that is not less, and a value below another is
only drawn where there is one. -/
def Candidate.guarded (shrink : Bool) (ops : List Op) : Candidate → Guarded (List Op)
  | .insert => do
    let i ← position (ops.length + 1)
    let op ← guardedOp
    guard (i ≤ ops.length)
    return ops.insertIdx i op
  | .remove => do
    let i ← position ops.length
    guard (i < ops.length)
    return ops.eraseIdx i
  | .field i place => do
    let op ← there ops[i]?
    let f ← there op.fields[place]?
    guard (shrink = true → f.value ≠ 0)
    let value ← OptionT.lift (drawField shrink f)
    return ops.set i (op.setField place value)
  | .retarget => do
    match ← guardedMember (creations ops) with
    | none => return ops
    | some (_, id) =>
      let i ← position ops.length
      guard (i < ops.length)
      return ops.modify i (Op.retarget id)
  | .dropNode => do
    match ← guardedMember (creations ops) with
    | none => return ops
    | some (made, id) =>
      guard (made ≤ ops.length)
      let offset ← position (ops.length - made)
      guard (made + 1 + offset ≤ ops.length)
      return ops.insertIdx (made + 1 + offset) (.dropNode id)
  | .snapshot => do
    let id ← OptionT.lift next32
    let start ← position (ops.length + 1)
    guard (start ≤ ops.length)
    let opened := ops.insertIdx start (.newSnapshot id)
    guard (start ≤ opened.length)
    let offset ← position (opened.length - start)
    guard (start + 1 + offset ≤ opened.length)
    return opened.insertIdx (start + 1 + offset) (.dropSnapshot id)

def guardedMutate (shrink : Bool) (ops : List Op) : Guarded (List Op) := do
  let c ← there (← guardedMember (candidates shrink ops))
  c.guarded shrink ops

theorem keeps_member {α : Type} (xs : List α) : Keeps (guardedMember xs) (drawMember xs)
    fun o => o = none ∧ xs = [] ∨ ∃ x ∈ xs, o = some x := by
  cases xs with
  | nil => exact fun _ => ⟨rfl, Or.inl ⟨rfl, rfl⟩⟩
  | cons x rest =>
    refine (keeps_lift (draws_index (Nat.succ_pos rest.length))).bind ?_
    rintro _ ⟨i, hi, rfl⟩
    have hget : (x :: rest)[i]? = some (x :: rest)[i] := List.getElem?_eq_getElem hi
    refine keeps_there hget ?_
    dsimp only [Option.bind_some]
    rw [hget]
    exact keeps_pure (Or.inr ⟨_, List.getElem_mem hi, rfl⟩)

theorem keeps_op : Keeps guardedOp drawOp fun _ => True :=
  keeps_position (by decide) fun i _ => keeps_lift (draws_true (drawFields i))

/-! ## No mutation stops -/

/-- A new value of a field is one of its type, and a smaller one in shrink mode. -/
theorem draws_field {f : Field} (hbound : f.value < f.width.bound)
    (hpos : shrink = true → f.value ≠ 0) :
    Draws (drawField shrink f) fun v => v < f.width.bound ∧ (shrink = true → v < f.value) := by
  cases shrink with
  | true =>
    refine (draws_below .half _ (Nat.pos_of_ne_zero (hpos rfl))).mono fun v hv => ?_
    exact ⟨hv.trans hbound, fun _ => hv⟩
  | false =>
    refine (draws_true next32).bind fun drawn _ => draws_pure ⟨?_, by simp⟩
    exact Nat.mod_lt _ (by cases f.width <;> decide)

theorem keeps_insert (h : Candidate.insert.Offered shrink ops) :
    Keeps (Candidate.insert.guarded shrink ops) (Candidate.insert.apply shrink ops)
      (Mutation shrink ops) := by
  refine keeps_position (Nat.succ_pos _) fun i hi => keeps_op.bind fun op _ => ?_
  have hle : i ≤ ops.length := Nat.le_of_lt_succ hi
  refine keeps_guard hle (keeps_pure ?_)
  have hins := Mutation.inserted (ops.take i) (ops.drop i) op h
  rwa [List.take_append_drop, ← insertIdx_of_le hle] at hins

theorem keeps_remove (h : Candidate.remove.Offered shrink ops) :
    Keeps (Candidate.remove.guarded shrink ops) (Candidate.remove.apply shrink ops)
      (Mutation shrink ops) := by
  refine keeps_position (List.length_pos_iff.2 h) fun i hi => keeps_guard hi (keeps_pure ?_)
  have hrem : Mutation shrink _ _ := .removed (ops.take i) (ops.drop (i + 1)) ops[i]
  rwa [← take_cons_drop (List.getElem?_eq_getElem hi), ← List.eraseIdx_eq_take_drop_succ] at hrem

theorem keeps_field {i place : Nat} (h : (Candidate.field i place).Offered shrink ops) :
    Keeps ((Candidate.field i place).guarded shrink ops) ((Candidate.field i place).apply shrink ops)
      (Mutation shrink ops) := by
  obtain ⟨op, f, hop, hf, hpos⟩ := h
  have hbound := op.value_lt_bound f (List.mem_of_getElem? hf)
  unfold Candidate.apply
  simp only [hop, hf]
  refine keeps_there hop (keeps_there hf (keeps_guard hpos ?_))
  refine (keeps_lift (draws_field hbound hpos)).bind fun value hvalue => keeps_pure ?_
  have hset := Mutation.changed (ops.take i) (ops.drop (i + 1))
    (Op.changes_setField hf hvalue.1) hvalue.2
  rw [← take_cons_drop hop] at hset
  rwa [List.set_eq_take_append_cons_drop, if_pos (List.getElem?_eq_some_iff.1 hop).1]

theorem keeps_retarget :
    Keeps (Candidate.retarget.guarded shrink ops) (Candidate.retarget.apply shrink ops)
      (Mutation shrink ops) := by
  refine (keeps_member (creations ops)).bind fun o ho => ?_
  obtain ⟨rfl, hnone⟩ | ⟨⟨made, id⟩, hmem, rfl⟩ := ho
  · exact keeps_pure (.unchanged ops fun op => createdNode?_of_creations_eq_nil hnone)
  · obtain ⟨maker, hmade, hid⟩ := mem_creations_iff.1 hmem
    have hmaker := List.mem_of_getElem? hmade
    refine keeps_position (List.length_pos_of_mem hmaker) fun i hi => keeps_guard hi (keeps_pure ?_)
    have hop := List.getElem?_eq_getElem hi
    obtain ⟨place, f, hname, hchange⟩ := ops[i].changes_retarget id
    rw [take_cons_drop hop] at hmaker
    have hret : Mutation shrink _ _ :=
      .retargeted (ops.take i) (ops.drop (i + 1)) hmaker hid hname hchange
    rw [← take_cons_drop hop] at hret
    rwa [List.modify_eq_take_cons_drop hi]

theorem keeps_dropNode (h : Candidate.dropNode.Offered shrink ops) :
    Keeps (Candidate.dropNode.guarded shrink ops) (Candidate.dropNode.apply shrink ops)
      (Mutation shrink ops) := by
  refine (keeps_member (creations ops)).bind fun o ho => ?_
  obtain ⟨rfl, hnone⟩ | ⟨⟨made, id⟩, hmem, rfl⟩ := ho
  · exact keeps_pure (.unchanged ops fun op => createdNode?_of_creations_eq_nil hnone)
  · obtain ⟨maker, hmade, hid⟩ := mem_creations_iff.1 hmem
    obtain ⟨hlt, hget⟩ := List.getElem?_eq_some_iff.1 hmade
    refine keeps_guard hlt.le (keeps_position (Nat.sub_pos_of_lt hlt) fun offset hoffset => ?_)
    have hle : made + 1 + offset ≤ ops.length := by omega
    refine keeps_guard hle (keeps_pure ?_)
    have hmaker : maker ∈ ops.take (made + 1 + offset) :=
      List.mem_take_iff_getElem.2 ⟨made, by omega, hget⟩
    have hdrop := Mutation.dropped (ops.take (made + 1 + offset)) (ops.drop (made + 1 + offset)) h hmaker
      hid
    rwa [List.take_append_drop, ← insertIdx_of_le hle] at hdrop

theorem keeps_snapshot (h : Candidate.snapshot.Offered shrink ops) :
    Keeps (Candidate.snapshot.guarded shrink ops) (Candidate.snapshot.apply shrink ops)
      (Mutation shrink ops) := by
  refine (keeps_lift (draws_true next32)).bind fun id _ => ?_
  refine keeps_position (Nat.succ_pos _) fun start hstart => ?_
  have hle : start ≤ ops.length := Nat.le_of_lt_succ hstart
  have hopened : (ops.insertIdx start (.newSnapshot id)).length = ops.length + 1 :=
    List.length_insertIdx_of_le_length hle _
  refine keeps_guard hle (keeps_guard (by omega) ?_)
  refine keeps_position (Nat.sub_pos_of_lt (by omega)) fun offset hoffset => ?_
  refine keeps_guard (by omega) (keeps_pure ?_)
  have hsur := Mutation.surrounded (ops.take start) ((ops.drop start).take offset)
    ((ops.drop start).drop offset) id h
  have hwithin : offset ≤ (ops.drop start).length := by
    rw [List.length_drop]
    omega
  rw [List.take_append_drop, List.take_append_drop, ← insertIdx_of_le hwithin,
    ← insertIdx_append_cons, List.length_take_of_le hle, ← insertIdx_of_le hle] at hsur
  exact hsur

/-- No candidate of a list stops, and each changes the list in one of the ways of a mutation. -/
theorem keeps_apply {c : Candidate} (hc : c ∈ candidates shrink ops) :
    Keeps (c.guarded shrink ops) (c.apply shrink ops) (Mutation shrink ops) := by
  rw [mem_candidates_iff] at hc
  cases c with
  | insert => exact keeps_insert hc
  | remove => exact keeps_remove hc
  | field i place => exact keeps_field hc
  | retarget => exact keeps_retarget
  | dropNode => exact keeps_dropNode hc
  | snapshot => exact keeps_snapshot hc

theorem keeps_mutate (shrink : Bool) (ops : List Op) :
    Keeps (guardedMutate shrink ops) (mutate shrink ops) (Mutation shrink ops) := by
  refine (keeps_member (candidates shrink ops)).bind fun o ho => ?_
  obtain ⟨rfl, hnone⟩ | ⟨c, hc, rfl⟩ := ho
  · exact absurd hnone (candidates_ne_nil shrink ops)
  · exact keeps_there rfl (keeps_apply hc)

/-! ## Shrinking -/

/-- In shrink mode a list does not get longer. -/
theorem Mutation.length_le (h : Mutation true ops ops') : ops'.length ≤ ops.length := by
  cases h with
  | inserted before after op hshrink => cases hshrink
  | removed before after op => simp
  | changed before after hchange hless => simp
  | retargeted before after hmaker hid hname hchange => simp
  | dropped before after hshrink hmaker hid => cases hshrink
  | surrounded before middle after id hshrink => cases hshrink
  | unchanged hnone => exact Nat.le_refl _

/-- In shrink mode its written form does not get longer either. -/
theorem Mutation.length_encode_le (h : Mutation true ops ops') :
    (Wire.encode ops').length ≤ (Wire.encode ops).length := by
  rw [Wire.length_encode, Wire.length_encode]
  cases h with
  | inserted before after op hshrink => cases hshrink
  | removed before after op =>
    simp only [List.map_append, List.map_cons, List.sum_append, List.sum_cons]
    omega
  | changed before after hchange hless =>
    simp only [List.map_append, List.map_cons, hchange.length_opBytes, Nat.le_refl]
  | retargeted before after hmaker hid hname hchange =>
    simp only [List.map_append, List.map_cons, hchange.length_opBytes, Nat.le_refl]
  | dropped before after hshrink hmaker hid => cases hshrink
  | surrounded before middle after id hshrink => cases hshrink
  | unchanged hnone => exact Nat.le_refl _

/-- What is left of a list after mutations in shrink mode, each with a generator of its own. -/
def shrunk (gs : List Generator) (ops : List Op) : List Op :=
  gs.foldl (fun ops g => ((mutate true ops).run g).1) ops

theorem shrunk_le (gs : List Generator) (ops : List Op) :
    (shrunk gs ops).length ≤ ops.length ∧
      (Wire.encode (shrunk gs ops)).length ≤ (Wire.encode ops).length := by
  induction gs generalizing ops with
  | nil => exact ⟨Nat.le_refl _, Nat.le_refl _⟩
  | cons g gs ih =>
    obtain ⟨hlength, hencode⟩ := ih ((mutate true ops).run g).1
    have hstep := (keeps_mutate true ops g).2
    exact ⟨hlength.trans hstep.length_le, hencode.trans hstep.length_encode_le⟩

/-- **Whatever the list, the mode and the generator, a mutation stops nowhere and makes one small change:
an operation comes or goes, a field of one operation is set, an operation turns to a node of the list, a
node is dropped behind what makes it, a snapshot surrounds a part, or nothing is changed as there are no
nodes. All else stays as it is and in its order. So in shrink mode, however many mutations follow one
another and whichever their generators are, there are never more operations and the written form is never
longer than before.** -/
theorem every_mutation_is_one_change (shrink : Bool) (ops : List Op) :
    (∀ g, ∃ ops' g', (guardedMutate shrink ops).run.run g = (some ops', g') ∧
      (mutate shrink ops).run g = (ops', g') ∧ Mutation shrink ops ops') ∧
    ∀ gs : List Generator, (shrunk gs ops).length ≤ ops.length ∧
      (Wire.encode (shrunk gs ops)).length ≤ (Wire.encode ops).length := by
  refine ⟨fun g => ?_, fun gs => shrunk_le gs ops⟩
  obtain ⟨hrun, hmutation⟩ := keeps_mutate shrink ops g
  exact ⟨_, _, hrun, rfl, hmutation⟩

end RopeStore.Trial
