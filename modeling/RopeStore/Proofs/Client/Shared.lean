import Mathlib.Data.List.Basic
import Mathlib.Data.List.Infix
import RopeStore.Proofs.Client.Deeds
import RopeStore.Proofs.Client.Lasting

/-!
# What is shared keeps its bytes

* `steady_exec` : a deed that is no append changes no body;
* `FillsUp s t i data id` : an append changed the node `id` and nothing else;
* `only_append_changes_bytes` : in every run, that is all that ever changes the bytes of a live node;
* `append_reaches_crowd` : unless a node has more owners than there are words for its count.
-/

namespace RopeStore
variable {ρ : Type}

namespace Client
variable {c : Client ρ} {i : Nat} {id : NodeId}

/-! ## Deeds that change no body -/

theorem lasting_steady (h : Heap ρ) : Lasting (Steady h) :=
  (stable_steady h).lasting (fun _ hs => hs.trans (.push _ _)) (fun _ _ hs => hs.trans (.push _ _))
    fun _ _ _ => (stable_steady h).newView (fun _ hs => hs) fun _ hs => hs.trans (.push _ _)

/-- **A deed that is no append changes no body.** -/
theorem steady_exec {d : Deed ρ} (hd : ∀ i data, d ≠ .act (.append i data)) :
    Steady c.heap (c.exec d).heap := by
  cases d with
  | act a =>
    exact (lasting_steady c.heap).act (.refl c.heap) fun i data ha => hd i data (congrArg Deed.act ha)
  | edit i e =>
    rw [heap_exec_edit]
    exact .refl c.heap

/-! ## Appends -/

/-- An append of `data` through reference number `i` took the client from `s` to `t`, and filled up
the node `id`. -/
structure FillsUp (s t : Client ρ) (i : Nat) (data : Bytes) (id : NodeId) : Prop where
  ref : s.refs[i]? = some id
  sole : s.owners id = 1
  /-- So nobody else can see it: no other reference, no raw pointer, no value and no view. -/
  unseen : s.refs.count id = 1 ∧ id ∉ s.raws ∧ (∀ v ∈ s.values, v.root? ≠ some id) ∧
    ∀ j b, s.heap.body? j = some b → b.child? ≠ some id
  /-- The node is a buffer, and its old bytes stay in front of those that are new. -/
  bytes : ∃ tag old count, s.heap.body? id = some (.buffer tag old) ∧ s.heap.bytes id = .ok old ∧
    t.heap.body? id = some (.buffer tag (old ++ data.1.take count)) ∧
    t.heap.bytes id = .ok (old ++ data.1.take count)
  fits : ∃ b capacity, t.heap.body? id = some b ∧ b.capacity = .ok (some capacity) ∧
    b.length ≤ capacity
  /-- All other nodes are what they were, and so is what the client holds. -/
  others : ∀ j, j ≠ id → t.heap.find? j = s.heap.find? j
  holds : t.refs = s.refs ∧ t.raws = s.raws ∧ t.values = s.values

/-- A node that is held once through a reference is seen nowhere else. -/
theorem unseen_of_sole (hi : c.refs[i]? = some id) (hheld : c.held.count id = 1)
    (hviews : c.heap.viewsOver id = 0) :
    c.refs.count id = 1 ∧ id ∉ c.raws ∧ (∀ v ∈ c.values, v.root? ≠ some id) ∧
      ∀ j b, c.heap.body? j = some b → b.child? ≠ some id := by
  have href := List.count_pos_iff.2 (List.mem_of_getElem? hi)
  rw [count_held] at hheld
  refine ⟨by omega, List.count_eq_zero.1 (by omega), ?_, ?_⟩
  · intro v hv hroot
    have hmem : id ∈ c.values.flatMap Value.roots := by
      refine List.mem_flatMap.2 ⟨v, hv, ?_⟩
      rw [Value.roots_of_some hroot]
      exact List.mem_singleton_self id
    have := List.count_pos_iff.2 hmem
    omega
  · intro j b hb hchild
    obtain ⟨n, hn, rfl⟩ := Heap.body?_eq_some_iff.1 hb
    have := Heap.viewsOver_pos_iff.2 ⟨j, n, hn, hchild⟩
    omega

/-- An append changes no bytes, or those of one node that nobody else can see. -/
theorem append_cases (hs : c.Sane) (hl : Legible c.heap c.held) (i : Nat) (data : Bytes) :
    (c.act (.append i data)).heap = c.heap ∨
      ∃ id, FillsUp c (c.act (.append i data)) i data id := by
  show (c.refs[i]?.elim c fun id => c.perform (Heap.append id data.1)).heap = _ ∨
    ∃ id, FillsUp c (c.refs[i]?.elim c fun id => c.perform (Heap.append id data.1)) i data id
  cases hi : c.refs[i]? with
  | none => exact Or.inl rfl
  | some id =>
    have hid := mem_held_of_ref hi
    rw [Option.elim_some]
    rcases Heap.run_append_cases hs.owned hl hid data.1 with
      hrun | ⟨n, tag, old, count, hn, hbody, htag, hheld, hviews, hfits, hrun⟩
    · left
      rw [perform, hrun]
    · right
      have hb := Heap.body?_of_find? hn
      rw [hbody] at hb
      have hb' : (c.heap.put id { n with body := .buffer tag (old ++ data.1.take count) }).body? id =
          some (.buffer tag (old ++ data.1.take count)) := by rw [Heap.body?_put hn, if_pos rfl]
      rw [perform, hrun]
      refine ⟨id, hi, ?_, unseen_of_sole hi hheld hviews, ?_, ?_, ?_, rfl, rfl, rfl⟩
      · rw [owners_eq, hheld, hviews]
      · exact ⟨tag, old, count, hb, Heap.bytes_of_stored? hb rfl, hb',
          Heap.bytes_of_stored? hb' rfl⟩
      · refine ⟨_, SizeClass.sizeFor tag - SizeClass.headerSize, hb', ?_, ?_⟩
        · rw [Body.capacity, SizeClass.capacityFor_eq_ok htag]
          rfl
        · show (old ++ data.1.take count).length ≤ _
          omega
      · intro j hj
        rw [Heap.find?_put hn, if_neg hj]

theorem FillsUp.body?_eq {s t : Client ρ} {data : Bytes} (hf : FillsUp s t i data id) {j : NodeId}
    (hj : j ≠ id) : t.heap.body? j = s.heap.body? j := by
  rw [Heap.body?, Heap.body?, hf.others j hj]

/-- **A node that is live before and after a deed keeps its bytes, or the deed is an append that
filled up this node.** -/
theorem bytes_exec (hs : c.Sane) (hl : Legible c.heap c.held) (d : Deed ρ) {b b' : Body ρ}
    (hb : c.heap.body? id = some b) (hb' : (c.exec d).heap.body? id = some b') :
    (∃ data, c.heap.bytes id = .ok data ∧ (c.exec d).heap.bytes id = .ok data) ∨
      ∃ i data, d = .act (.append i data) ∧ FillsUp c (c.exec d) i data id := by
  have hs' := hs.exec hl d
  by_cases hd : ∃ i data, d = .act (.append i data)
  · obtain ⟨i, data, rfl⟩ := hd
    rcases append_cases hs hl i data with hsame | ⟨j, hfills⟩
    · have hsteady : Steady c.heap (c.exec (.act (.append i data))).heap := by
        rw [exec, hsame]
        exact .refl c.heap
      exact Or.inl (Heap.bytes_of_steady hs.owned hs'.owned hsteady hb hb')
    · by_cases hj : id = j
      · rw [hj]
        exact Or.inr ⟨i, data, rfl, hfills⟩
      · -- the node is not the one that was filled up, and if it is a view it is not over that one
        obtain ⟨-, -, -, hviews⟩ := hfills.unseen
        refine Or.inl (Heap.bytes_of_body?_eq hs.owned hs'.owned hb ?_ fun child hchild => ?_)
        · exact (hfills.body?_eq hj).trans hb
        · refine hfills.body?_eq ?_
          rintro rfl
          exact hviews id b hb hchild
  · have hsteady := steady_exec (c := c) fun i data hd' => hd ⟨i, data, hd'⟩
    exact Or.inl (Heap.bytes_of_steady hs.owned hs'.owned hsteady hb hb')

/-! ## Every run -/

/-- What is shared all the way through some deeds keeps its bytes all the way. -/
theorem bytes_while_shared {deeds : List (Deed ρ)} (hu : Uncrowded deeds) (first later : List (Deed ρ)) (hlater : first ++ later <+: deeds)
    (hshared : ∀ part, part <+: later → 2 ≤ (after (first ++ part)).owners id) :
    ∃ data, (after first).heap.bytes id = .ok data ∧
      (after (first ++ later)).heap.bytes id = .ok data := by
  have hlive : ∀ part, part <+: later → Uncrowded (first ++ part) ∧
      ∃ b, (after (first ++ part)).heap.body? id = some b := by
    intro part hpart
    have hbefore := hu.of_prefix (((List.prefix_append_right_inj first).2 hpart).trans hlater)
    obtain ⟨n, hn⟩ := find?_of_owners_pos hbefore.sane.owned
      (Nat.lt_of_lt_of_le Nat.two_pos (hshared part hpart))
    exact ⟨hbefore, n.body, Heap.body?_of_find? hn⟩
  induction later using List.reverseRecOn with
  | nil =>
    obtain ⟨hfirst, b, hb⟩ := hlive [] List.prefix_rfl
    rw [List.append_nil] at hfirst hb ⊢
    obtain ⟨data, -, hbytes, -⟩ := Heap.bytes_eq_ok hfirst.sane.owned hb
    exact ⟨data, hbytes, hbytes⟩
  | append_singleton later d ih =>
    have hprefix : later <+: later ++ [d] := List.prefix_append later [d]
    obtain ⟨data, hfirst, hbytes⟩ := ih
      (((List.prefix_append_right_inj first).2 hprefix).trans hlater)
      (fun part hpart => hshared part (hpart.trans hprefix))
      fun part hpart => hlive part (hpart.trans hprefix)
    obtain ⟨hbefore, b, hb⟩ := hlive later hprefix
    obtain ⟨-, b', hb'⟩ := hlive (later ++ [d]) List.prefix_rfl
    rw [← List.append_assoc, after_concat] at hb' ⊢
    refine ⟨data, hfirst, ?_⟩
    rcases bytes_exec hbefore.sane hbefore.legible d hb hb' with
      ⟨data', hold, hnew⟩ | ⟨i, new, -, hfills⟩
    · rw [hbytes] at hold
      cases hold
      exact hnew
    · have hsole := hfills.sole
      have := hshared later hprefix
      omega

/-- **In every run of acts and edits, faults included, in which no node has more owners than counts
have words for, a node that is live before and after a deed keeps its bytes. The one exception is an
append to a buffer with one owner, which nobody else can see and which has room for its bytes; the
old ones stay in front. So a node keeps its bytes for as long as it is shared.** -/
theorem only_append_changes_bytes (deeds : List (Deed ρ)) (hu : Uncrowded deeds) :
    (∀ done d, done ++ [d] <+: deeds → ∀ id n n', (after done).heap.find? id = some n →
      (after (done ++ [d])).heap.find? id = some n' →
      (∃ data, (after done).heap.bytes id = .ok data ∧
        (after (done ++ [d])).heap.bytes id = .ok data) ∨
      ∃ i data, d = .act (.append i data) ∧
        FillsUp (after done) (after (done ++ [d])) i data id) ∧
    ∀ first later, first ++ later <+: deeds → ∀ id,
      (∀ part, part <+: later → 2 ≤ (after (first ++ part)).owners id) →
      ∃ data, (after first).heap.bytes id = .ok data ∧
        (after (first ++ later)).heap.bytes id = .ok data := by
  refine ⟨?_, fun first later hlater id hshared =>
    bytes_while_shared hu first later hlater hshared⟩
  intro done d hdone id n n' hn hn'
  have hbefore := hu.of_prefix ((List.prefix_append done [d]).trans hdone)
  rw [after_concat] at hn' ⊢
  exact bytes_exec hbefore.sane hbefore.legible d (Heap.body?_of_find? hn) (Heap.body?_of_find? hn')

/-- A buffer is filled up by an append, and then shared, so that a second append is refused. -/
def fillAndShare : List (Deed Nat) :=
  [.act (.bufferWithExtra ⟨[1, 2], by decide⟩ 8), .act (.append 0 ⟨[3], by decide⟩),
    .act (.clone (.ref 0)), .act (.append 0 ⟨[4], by decide⟩)]

theorem only_append_changes_bytes_fillAndShare :
    Uncrowded fillAndShare ∧
      (after (fillAndShare.take 2)).heap.bytes ⟨1⟩ = .ok [1, 2, 3] ∧
      (∃ i data, FillsUp (after (fillAndShare.take 1)) (after (fillAndShare.take 2)) i data ⟨1⟩) ∧
      ∃ data, (after (fillAndShare.take 3)).heap.bytes ⟨1⟩ = .ok data ∧
        (after fillAndShare).heap.bytes ⟨1⟩ = .ok data := by
  have hu : Uncrowded fillAndShare := .of_small (by decide)
  obtain ⟨hstep, hshared⟩ := only_append_changes_bytes fillAndShare hu
  refine ⟨hu, by decide, ?_, ?_⟩
  · have hbytes : (after (fillAndShare.take 1)).heap.bytes ⟨1⟩ = .ok [1, 2] := by decide
    have hbytes' : (after (fillAndShare.take 2)).heap.bytes ⟨1⟩ = .ok [1, 2, 3] := by decide
    rcases hstep (fillAndShare.take 1) (.act (.append 0 ⟨[3], by decide⟩))
      (List.take_prefix 2 fillAndShare) ⟨1⟩ _ _ rfl rfl with ⟨data, hold, hnew⟩ | ⟨i, data, -, hfills⟩
    · rw [hbytes] at hold
      cases hold
      exact absurd (hbytes'.symm.trans hnew) (by decide)
    · exact ⟨i, data, hfills⟩
  · refine hshared (fillAndShare.take 3) [.act (.append 0 ⟨[4], by decide⟩)] List.prefix_rfl ⟨1⟩ ?_
    intro part hpart
    have hmany : ∀ p ∈ List.inits [.act (.append 0 ⟨[4], by decide⟩)],
        2 ≤ (after (fillAndShare.take 3 ++ p)).owners ⟨1⟩ := by decide
    exact hmany part ((List.mem_inits ..).2 hpart)

/-! ## Too many owners -/

def roomyBuffer : List (Deed Nat) := [.act (.bufferWithExtra ⟨[1, 2], by decide⟩ 8)]

/-- More references are taken to the buffer than there are words for its count. -/
def crowdedBuffer : List (Deed Nat) :=
  roomyBuffer ++ List.replicate RefCount.period (.act (.clone (.ref 0)))

/-- The count of the crowded buffer is again that of one reference. -/
theorem after_crowdedBuffer :
    after crowdedBuffer =
      { after roomyBuffer with refs := List.replicate (RefCount.period + 1) ⟨1⟩ } := by
  have hp : (after roomyBuffer).find? (.ref 0) = some ⟨1⟩ := by decide
  have hn : (after roomyBuffer).heap.find? ⟨1⟩ = some ⟨.ofNat 1, .buffer 4 [1, 2]⟩ := by decide
  rw [crowdedBuffer, after_clones hp hn, RefCount.ofNat_add_period, Heap.put_of_find? hn]
  rfl

def crowdedAppend : List (Deed Nat) := crowdedBuffer ++ [.act (.append 0 ⟨[3], by decide⟩)]

theorem after_crowdedAppend :
    after crowdedAppend = { after (roomyBuffer ++ [.act (.append 0 ⟨[3], by decide⟩)]) with
      refs := List.replicate (RefCount.period + 1) ⟨1⟩ } := by
  rw [crowdedAppend, after_concat, after_crowdedBuffer, after_concat]
  rfl

theorem le_owners_of_refs {k : Nat} (hrefs : c.refs = List.replicate k id) : k ≤ c.owners id := by
  rw [owners, hrefs, List.count_replicate_self]
  omega

/-- An append through one of so many references is seen through all the others. -/
theorem crowd_sees_append :
    2 ≤ (after crowdedBuffer).owners ⟨1⟩ ∧ 2 ≤ (after crowdedAppend).owners ⟨1⟩ ∧
      (after crowdedBuffer).heap.bytes ⟨1⟩ = .ok [1, 2] ∧
      (after crowdedAppend).heap.bytes ⟨1⟩ = .ok [1, 2, 3] := by
  have hmany : 2 ≤ RefCount.period + 1 := by decide
  rw [after_crowdedBuffer, after_crowdedAppend]
  exact ⟨Nat.le_trans hmany (le_owners_of_refs rfl), Nat.le_trans hmany (le_owners_of_refs rfl),
    by decide, by decide⟩

/-- **Nothing stops a count that has run over, so both fail for a node with that many owners: its bytes
change though the node is not held alone, and though it is shared all the way.** -/
theorem append_reaches_crowd :
    (¬ ∀ done d, done ++ [d] <+: crowdedAppend → ∀ id n n', (after done).heap.find? id = some n →
      (after (done ++ [d])).heap.find? id = some n' →
      (∃ data, (after done).heap.bytes id = .ok data ∧
        (after (done ++ [d])).heap.bytes id = .ok data) ∨
      ∃ i data, d = .act (.append i data) ∧
        FillsUp (after done) (after (done ++ [d])) i data id) ∧
    ¬ ∀ first later, first ++ later <+: crowdedAppend → ∀ id,
      (∀ part, part <+: later → 2 ≤ (after (first ++ part)).owners id) →
      ∃ data, (after first).heap.bytes id = .ok data ∧
        (after (first ++ later)).heap.bytes id = .ok data := by
  obtain ⟨hbefore, hlater, hold, hnew⟩ := crowd_sees_append
  have hchanged : ¬ ∃ data, (after crowdedBuffer).heap.bytes ⟨1⟩ = .ok data ∧
      (after crowdedAppend).heap.bytes ⟨1⟩ = .ok data := by
    rintro ⟨data, hdata, hdata'⟩
    rw [hold] at hdata
    rw [hnew, ← hdata] at hdata'
    exact absurd hdata' (by decide)
  refine ⟨fun hsteps => ?_, fun hshared => hchanged ?_⟩
  · obtain ⟨n, hn⟩ : ∃ n, (after crowdedBuffer).heap.find? ⟨1⟩ = some n := by
      rw [after_crowdedBuffer]
      exact ⟨_, rfl⟩
    obtain ⟨n', hn'⟩ : ∃ n, (after crowdedAppend).heap.find? ⟨1⟩ = some n := by
      rw [after_crowdedAppend]
      exact ⟨_, rfl⟩
    rcases hsteps crowdedBuffer _ List.prefix_rfl ⟨1⟩ n n' hn hn' with hsame | ⟨i, data, -, hfills⟩
    · exact hchanged hsame
    · have hsole := hfills.sole
      omega
  · refine hshared crowdedBuffer [.act (.append 0 ⟨[3], by decide⟩)] List.prefix_rfl ⟨1⟩ ?_
    intro part hpart
    rcases List.prefix_concat_iff.1 (show part <+: [] ++ [_] from hpart) with rfl | hnil
    · exact hlater
    · rw [List.prefix_nil.1 hnil, List.append_nil]
      exact hbefore

end Client
end RopeStore
