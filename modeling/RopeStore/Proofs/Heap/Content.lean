import Mathlib.Data.List.Basic
import RopeStore.Heap.Part
import RopeStore.Proofs.Heap.Create

/-!
# The bytes of a node and parts of it

* `Heap.base h id` : the node that holds the bytes of node `id`, which is the child of a view, and
  `Heap.offset h id` : where they begin there;
* `Heap.content? h id` : the bytes of node `id`, found without a depth;
* `Heap.Intact h id b` : node `id` is live with the body `b`, and nothing that it needs is amiss;
  `Intact.bytes_eq_ok` says that the bytes that are read are then those of `content?`, and
  `bytes_eq_ok` that this is so of every live node where the counts are right;
* `run_part_eq_error`, `run_part_of_all`, `Intact.run_part_of_proper` : the three ends of taking a part;
* `Intact.run_partOrCopy_of_copy` : few bytes become a buffer of their own.
-/

namespace RopeStore
variable {ρ : Type} {h : Heap ρ} {held : List NodeId} {id : NodeId} {n : Node ρ}

namespace Heap

/-- The node that holds the bytes of node `id`. -/
def base (h : Heap ρ) (id : NodeId) : NodeId := ((h.body? id).bind Body.child?).getD id

/-- Where the bytes of node `id` begin in the node that holds them. -/
def offset (h : Heap ρ) (id : NodeId) : Nat := ((h.body? id).bind Body.view?).elim 0 (·.1)

/-- The bytes of node `id`. -/
def content? (h : Heap ρ) (id : NodeId) : Option (List UInt8) :=
  match h.body? id with
  | some (.view start length child) =>
    ((h.body? child).bind Body.stored?).map fun data => (data.drop start).take length
  | some b => b.stored?
  | none => none

/-- Node `id` is live and has the body `b`, which is sound, and so is the body that holds its bytes. -/
structure Intact (h : Heap ρ) (id : NodeId) (b : Body ρ) : Prop where
  body : h.body? id = some b
  sound : b.Sound h
  below : ∀ c, h.body? (h.base id) = some c → c.Sound h

end Heap

/-- Where the counts are right, every live node is intact. -/
theorem Owned.intact (ho : Owned h held) {b : Body ρ} (hb : h.body? id = some b) : h.Intact id b :=
  ⟨hb, ho.sound hb, fun _ hc => ho.sound hc⟩

/-! ## Reading -/

theorem Body.exists_stored? {b : Body ρ} (hs : b.Sound h) (hflat : b.child? = none) :
    ∃ data, b.stored? = some data ∧ data.length = b.length ∧ data.length < wordBound := by
  cases b with
  | buffer tag bytes =>
    have := SizeClass.sizeFor_lt_wordBound tag
    exact ⟨bytes, rfl, rfl, by have := hs.2; omega⟩
  | external bytes keeper => exact ⟨bytes, rfl, rfl, hs⟩
  | view start length child => cases hflat
  | malformed tag length => exact hs.elim

theorem Body.exists_view {b : Body ρ} {child : NodeId} (hchild : b.child? = some child) :
    ∃ start length, b = .view start length child := by
  cases b with
  | view start length child' =>
    cases hchild
    exact ⟨start, length, rfl⟩
  | buffer tag bytes => cases hchild
  | external bytes keeper => cases hchild
  | malformed tag length => cases hchild

theorem Body.kind_of_flat {b : Body ρ} (hs : b.Sound h) (hflat : b.child? = none) :
    b.kind = .ok .buffer ∨ b.kind = .ok .external := by
  cases b with
  | buffer tag bytes => exact Or.inl rfl
  | external bytes keeper => exact Or.inr rfl
  | view start length child => cases hflat
  | malformed tag length => exact hs.elim

theorem slice_eq_ok {bytes : List UInt8} {start count : Nat} (hle : start + count ≤ bytes.length) :
    slice bytes start count = .ok ((bytes.drop start).take count) :=
  if_pos ⟨by omega, by omega⟩

namespace Heap

theorem base_of_flat {b : Body ρ} (hb : h.body? id = some b) (hflat : b.child? = none) :
    h.base id = id := by
  rw [base, hb, Option.bind_some, hflat]
  rfl

theorem base_of_view {start length : Nat} {child : NodeId}
    (hb : h.body? id = some (.view start length child)) : h.base id = child := by
  rw [base, hb]
  rfl

theorem offset_of_flat {b : Body ρ} (hb : h.body? id = some b) (hflat : b.child? = none) :
    h.offset id = 0 := by
  have hview : b.view? = none := by rwa [Body.child?, Option.map_eq_none_iff] at hflat
  rw [offset, hb, Option.bind_some, hview]
  rfl

theorem offset_of_view {start length : Nat} {child : NodeId}
    (hb : h.body? id = some (.view start length child)) : h.offset id = start := by
  rw [offset, hb]
  rfl

theorem content?_of_flat {b : Body ρ} (hb : h.body? id = some b) (hflat : b.child? = none) :
    h.content? id = b.stored? := by
  rw [content?, hb]
  cases b with
  | view start length child => cases hflat
  | buffer tag bytes => rfl
  | external bytes keeper => rfl
  | malformed tag length => rfl

/-- What holds the bytes of an intact node has no child, and the bytes lie in there. -/
theorem Intact.exists_base {b : Body ρ} (hi : h.Intact id b) :
    ∃ c stored, h.body? (h.base id) = some c ∧ c.child? = none ∧ c.stored? = some stored ∧
      stored.length = c.length ∧ h.offset id + b.length ≤ stored.length ∧
      h.content? id = some ((stored.drop (h.offset id)).take b.length) := by
  obtain ⟨hb, hs, hbelow⟩ := hi
  cases hchild : b.child? with
  | none =>
    obtain ⟨stored, hstored, hlen, -⟩ := Body.exists_stored? hs hchild
    rw [base_of_flat hb hchild, offset_of_flat hb hchild, content?_of_flat hb hchild]
    refine ⟨b, stored, hb, hchild, hstored, hlen, by omega, ?_⟩
    rw [List.drop_zero, ← hlen, List.take_length, hstored]
  | some child =>
    obtain ⟨start, length, rfl⟩ := Body.exists_view hchild
    obtain ⟨-, c, hc, hflat, -, hle⟩ := hs
    rw [base_of_view hb] at hbelow ⊢
    obtain ⟨stored, hstored, hlen, -⟩ := Body.exists_stored? (hbelow c hc) hflat
    rw [offset_of_view hb, content?, hb]
    refine ⟨c, stored, hc, hflat, hstored, hlen, hlen ▸ hle, ?_⟩
    show ((h.body? child).bind Body.stored?).map _ = _
    rw [hc, Option.bind_some, hstored]
    rfl

theorem body?_base (ho : Owned h held) {b : Body ρ} (hb : h.body? id = some b) :
    ∃ c data, h.body? (h.base id) = some c ∧ c.child? = none ∧ c.stored? = some data ∧
      data.length = c.length := by
  obtain ⟨c, data, hc, hflat, hdata, hlen, -⟩ := (ho.intact hb).exists_base
  exact ⟨c, data, hc, hflat, hdata, hlen⟩

/-- The bytes of a node are a function of its body and of the body of the node below it. -/
theorem content?_congr {h' : Heap ρ} {b : Body ρ} (hb : h.body? id = some b)
    (hb' : h'.body? id = some b)
    (hchild : ∀ child, b.child? = some child → h'.body? child = h.body? child) :
    h'.content? id = h.content? id := by
  rw [content?, content?, hb, hb']
  cases b with
  | view start length child =>
    simp only [hchild child rfl]
  | buffer tag bytes => rfl
  | external bytes keeper => rfl
  | malformed tag length => rfl

theorem bytesWithin_of_stored? {b : Body ρ} {data : List UInt8} (hb : h.body? id = some b)
    (hdata : b.stored? = some data) (depth : Nat) : h.bytesWithin (depth + 1) id = .ok data := by
  rw [bytesWithin, body_eq_ok hb]
  cases b with
  | buffer tag bytes =>
    cases hdata
    rfl
  | external bytes keeper =>
    cases hdata
    rfl
  | view start length child => cases hdata
  | malformed tag length => cases hdata

theorem bytes_of_stored? {b : Body ρ} {data : List UInt8} (hb : h.body? id = some b)
    (hdata : b.stored? = some data) : h.bytes id = .ok data := by
  have hlt := lt_size_of_body? hb
  obtain ⟨depth, hdepth⟩ : ∃ depth, h.nodes.size = depth + 1 :=
    Nat.exists_eq_succ_of_ne_zero (by omega)
  rw [bytes, hdepth]
  exact bytesWithin_of_stored? hb hdata depth

theorem bytesWithin_of_view {start length : Nat} {child : NodeId}
    (hb : h.body? id = some (.view start length child)) (depth : Nat) :
    h.bytesWithin (depth + 1) id = h.bytesWithin depth child >>= (slice · start length) := by
  rw [bytesWithin, body_eq_ok hb]
  rfl

theorem bytes_of_view {start length : Nat} {child : NodeId} {c : Body ρ} {stored : List UInt8}
    (hb : h.body? id = some (.view start length child)) (hc : h.body? child = some c)
    (hstored : c.stored? = some stored) (hle : start + length ≤ stored.length) :
    h.bytes id = .ok ((stored.drop start).take length) := by
  have hne : child.index ≠ id.index := by
    intro heq
    rw [index_inj.1 heq, hb] at hc
    cases hc
    cases hstored
  have hid := lt_size_of_body? hb
  have hchild := lt_size_of_body? hc
  obtain ⟨depth, hdepth⟩ : ∃ depth, h.nodes.size = depth + 1 + 1 := ⟨h.nodes.size - 2, by omega⟩
  rw [bytes, hdepth, bytesWithin_of_view hb, bytesWithin_of_stored? hc hstored]
  exact slice_eq_ok hle

theorem Intact.bytes_eq_ok {b : Body ρ} (hi : h.Intact id b) :
    ∃ data, h.content? id = some data ∧ h.bytes id = .ok data ∧ data.length = b.length := by
  have hb := hi.body
  obtain ⟨c, stored, hc, -, hstored, -, hle, hcontent⟩ := hi.exists_base
  cases hchild : b.child? with
  | none =>
    obtain ⟨data, hdata, hlen, -⟩ := Body.exists_stored? hi.sound hchild
    exact ⟨data, by rw [content?_of_flat hb hchild, hdata], bytes_of_stored? hb hdata, hlen⟩
  | some child =>
    obtain ⟨start, length, rfl⟩ := Body.exists_view hchild
    rw [base_of_view hb] at hc
    rw [offset_of_view hb] at hle hcontent
    have hle : start + length ≤ stored.length := hle
    refine ⟨_, hcontent, bytes_of_view hb hc hstored hle, ?_⟩
    rw [List.length_take, List.length_drop]
    show min length (stored.length - start) = length
    omega

/-- The bytes of an intact node lie in those of its base. -/
theorem Intact.content?_of_base {b c : Body ρ} (hi : h.Intact id b) {stored : List UInt8}
    (hc : h.body? (h.base id) = some c) (hstored : c.stored? = some stored) :
    h.content? id = some ((stored.drop (h.offset id)).take b.length) := by
  obtain ⟨c', stored', hc', -, hstored', -, -, hcontent⟩ := hi.exists_base
  obtain rfl := Option.some.inj (hc.symm.trans hc')
  obtain rfl := Option.some.inj (hstored.symm.trans hstored')
  exact hcontent

/-- **Every live node can be read, and it has as many bytes as its length says.** -/
theorem bytes_eq_ok (ho : Owned h held) {b : Body ρ} (hb : h.body? id = some b) :
    ∃ data, h.content? id = some data ∧ h.bytes id = .ok data ∧ data.length = b.length :=
  (ho.intact hb).bytes_eq_ok

/-! ## Parts -/

theorem checkPart_eq_ok_iff {length pos count : Nat} :
    checkPart length pos count = .ok () ↔ 0 < count ∧ pos < length ∧ count ≤ length - pos := by
  unfold checkPart
  split <;> simp_all

theorem checkPart_eq_error {length pos count : Nat}
    (hbad : ¬ (0 < count ∧ pos < length ∧ count ≤ length - pos)) :
    checkPart length pos count = .error (.badPart count pos length) :=
  if_neg hbad

/-- What is no part is refused, and nothing happens. -/
theorem run_part_eq_error {b : Body ρ} (hb : h.body? id = some b) {pos count : Nat}
    (hbad : ¬ (0 < count ∧ pos < b.length ∧ count ≤ b.length - pos)) :
    (part id pos count).run h = .error (.badPart count pos b.length) h := by
  rw [part, run_bind_of_run_eq_ok (run_ask_body hb), checkPart_eq_error hbad]
  exact run_bind_of_run_eq_error (run_attempt_error rfl)

theorem run_part_of_all (hn : h.find? id = some n) {pos count : Nat}
    (hgood : 0 < count ∧ pos < n.body.length ∧ count ≤ n.body.length - pos)
    (hall : count = n.body.length) :
    (part id pos count).run h =
      .ok id (h.put id { n with refs := ⟨n.refs.packed + RefCount.unit⟩ }) := by
  rw [part, run_bind_of_run_eq_ok (run_ask_body (body?_of_find? hn)),
    run_bind_of_run_eq_ok (run_attempt_of_eq_ok (checkPart_eq_ok_iff.2 hgood))]
  simp only [hall, if_true]
  rw [run_bind_of_run_eq_ok (run_retain hn)]
  rfl

/-- A view that lies properly in a node that is no view is made with one more reference to that. -/
theorem run_newView {child : NodeId} {c : Node ρ} (hc : h.find? child = some c)
    {start count : Nat} (hs : c.body.Sound h) (hflat : c.body.child? = none) (hpos : 0 < count)
    (hlt : count < c.body.length) (hle : start + count ≤ c.body.length) :
    (newView child start count).run h = .ok h.next
      ((h.put child { c with refs := ⟨c.refs.packed + RefCount.unit⟩ }).push
        ⟨.fresh, .view start count child⟩) := by
  have hcheck : checkView c.body start count = .ok () := by
    have hproper : require .properPart (decide (0 < count ∧ count < c.body.length)) = .ok () :=
      if_pos (decide_eq_true ⟨hpos, hlt⟩)
    have hlast : checkedSub c.body.length count = .ok (c.body.length - count) :=
      if_pos (by omega)
    have hinside : require .startInside (decide (start ≤ c.body.length - count)) = .ok () :=
      if_pos (decide_eq_true (by omega))
    rw [checkView]
    rcases Body.kind_of_flat hs hflat with hkind | hkind <;> rw [hkind, hproper, hlast] <;> exact hinside
  rw [newView, run_bind_of_run_eq_ok (run_ask_body (body?_of_find? hc)),
    run_bind_of_run_eq_ok (run_attempt_of_eq_ok hcheck), run_bind_of_run_eq_ok (run_retain hc)]
  show (EStateM.Result.ok (Heap.next (h.put child _)) _ :
    EStateM.Result Fault (Heap ρ) NodeId) = _
  rw [next_put]
  rfl

/-- The bytes of a part, cut out of the node or out of what holds its bytes. -/
theorem Intact.drop_take_eq {b c : Body ρ} (hi : h.Intact id b) {data stored : List UInt8}
    (hdata : h.content? id = some data) (hc : h.body? (h.base id) = some c)
    (hstored : c.stored? = some stored) {pos count : Nat} (hle : pos + count ≤ b.length) :
    (stored.drop (h.offset id + pos)).take count = (data.drop pos).take count := by
  obtain rfl := Option.some.inj (hdata.symm.trans (hi.content?_of_base hc hstored))
  rw [List.drop_take, List.take_take, List.drop_drop, Nat.min_eq_left (by omega)]

/-- **Fewer bytes are a view over the node that holds them.** -/
theorem Intact.run_part_of_proper {b : Body ρ} (hi : h.Intact id b) {pos count : Nat}
    (hgood : 0 < count ∧ pos < b.length ∧ count ≤ b.length - pos) (hall : count ≠ b.length) :
    ∃ c, h.find? (h.base id) = some c ∧
      (Body.view (h.offset id + pos) count (h.base id) : Body ρ).Sound h ∧
      (part id pos count).run h = .ok h.next
        ((h.put (h.base id) { c with refs := ⟨c.refs.packed + RefCount.unit⟩ }).push
          ⟨.fresh, .view (h.offset id + pos) count (h.base id)⟩) := by
  have hb := hi.body
  obtain ⟨d, stored, hd, hflat, hstored, hlen, hinside, -⟩ := hi.exists_base
  obtain ⟨c, hc, rfl⟩ := body?_eq_some_iff.1 hd
  obtain ⟨_, _, _, hword⟩ := Body.exists_stored? (hi.below c.body hd) hflat
  obtain ⟨hpos, hlt, hle⟩ := hgood
  have hshort : count < c.body.length := by omega
  have hend : h.offset id + pos + count ≤ c.body.length := by omega
  refine ⟨c, hc, ⟨hpos, c.body, hd, hflat, hshort, hend⟩, ?_⟩
  have hview := run_newView hc (hi.below c.body hd) hflat hpos hshort hend
  rw [part, run_bind_of_run_eq_ok (run_ask_body hb),
    run_bind_of_run_eq_ok (run_attempt_of_eq_ok (checkPart_eq_ok_iff.2 ⟨hpos, hlt, hle⟩)),
    if_neg hall, ← hview]
  cases b with
  | view start length child =>
    have hadd : checkedAdd start pos = .ok (start + pos) := by
      have hsum : start + pos < wordBound := by
        rw [offset_of_view hb] at hend
        cases hstored.symm.trans ‹c.body.stored? = some _›
        omega
      exact if_pos hsum
    rw [base_of_view hb, offset_of_view hb]
    exact run_bind_of_run_eq_ok (run_attempt_of_eq_ok hadd)
  | buffer tag bytes =>
    rw [base_of_flat hb rfl, offset_of_flat hb rfl, Nat.zero_add]
  | external bytes keeper =>
    rw [base_of_flat hb rfl, offset_of_flat hb rfl, Nat.zero_add]
  | malformed tag length => exact hi.sound.elim

/-- Few bytes become a buffer of their own, and nothing else happens. -/
theorem Intact.run_partOrCopy_of_copy {b : Body ρ} (hi : h.Intact id b) {pos count : Nat}
    (hgood : 0 < count ∧ pos < b.length ∧ count ≤ b.length - pos)
    (hfew : ¬ (count = b.length ∨ copyLimit < count)) :
    ∃ data tag, h.bytes id = .ok data ∧ SizeClass.isBuffer tag = true ∧
      ((data.drop pos).take count).length + SizeClass.headerSize ≤ SizeClass.sizeFor tag ∧
      (partOrCopy id pos count).run h = .ok h.next
        (h.push ⟨.fresh, .buffer tag ((data.drop pos).take count)⟩) := by
  obtain ⟨data, -, hbytes, hlen⟩ := hi.bytes_eq_ok
  have hslice : (do slice (← h.bytes id) pos count) = .ok ((data.drop pos).take count) := by
    rw [hbytes]
    exact slice_eq_ok (by omega)
  have hshort : ((data.drop pos).take count).length ≤ SizeClass.maxLargeLength := by
    have hlimit : copyLimit ≤ SizeClass.maxLargeLength := by decide
    rw [List.length_take]
    omega
  obtain ⟨tag, hrun, htag, hfits⟩ := run_ofBytes_of_le hshort h
  refine ⟨data, tag, hbytes, htag, hfits, ?_⟩
  rw [partOrCopy, run_bind_of_run_eq_ok (run_ask_of_eq_ok (length_eq_ok hi.body)), if_neg hfew,
    run_bind_of_run_eq_ok (run_attempt_of_eq_ok (checkPart_eq_ok_iff.2 hgood)),
    run_bind_of_run_eq_ok (run_ask_of_eq_ok hslice), hrun]

theorem run_partOrCopy_of_part {b : Body ρ} (hb : h.body? id = some b) {pos count : Nat}
    (hmany : count = b.length ∨ copyLimit < count) :
    (partOrCopy id pos count).run h = (part id pos count).run h := by
  rw [partOrCopy, run_bind_of_run_eq_ok (run_ask_of_eq_ok (length_eq_ok hb)), if_pos hmany]

theorem run_partOrCopy_eq_error {b : Body ρ} (hb : h.body? id = some b) {pos count : Nat}
    (hbad : ¬ (0 < count ∧ pos < b.length ∧ count ≤ b.length - pos)) :
    (partOrCopy id pos count).run h = .error (.badPart count pos b.length) h := by
  by_cases hmany : count = b.length ∨ copyLimit < count
  · rw [run_partOrCopy_of_part hb hmany, run_part_eq_error hb hbad]
  · rw [partOrCopy, run_bind_of_run_eq_ok (run_ask_of_eq_ok (length_eq_ok hb)), if_neg hmany,
      checkPart_eq_error hbad]
    exact run_bind_of_run_eq_error (run_attempt_error rfl)

end Heap
end RopeStore
