import Mathlib.Data.List.Basic
import RopeStore.Heap.Create
import RopeStore.Proofs.Outcome
import RopeStore.Proofs.Heap.Balance

/-!
# What making a node leaves

* `run_ask_node`, `run_onCount`, `run_retain` : the primitive steps on a live node, with their ends;
* `Body.Stores b data` : a well-formed body that holds the bytes `data` itself;
* `run_newBufferWithin`, `run_bufferWithExtra`, `run_ofBytes`, `run_ofOwner`, `run_newStatic` : each of
  them pushes one node, whatever the heap is; `run_newBufferWithin_eq_ok` names the class of a buffer;
* `run_append_of_isOne`, `run_append_eq_zero` : the two ends of an append, and `append_cases` : which of
  them it is does not depend on the bytes.
-/

namespace RopeStore
variable {ρ : Type}

def Body.stored? : Body ρ → Option (List UInt8)
  | .buffer _ bytes => some bytes
  | .external bytes _ => some bytes
  | _ => none

/-- A well-formed body of a mortal node that holds `data` itself. -/
structure Body.Stores (b : Body ρ) (data : List UInt8) : Prop where
  stored : b.stored? = some data
  sound : ∀ h : Heap ρ, b.Sound h
  mortal : ¬ b.IsPermanent

theorem Body.child?_of_stored? {b : Body ρ} {data : List UInt8} (hb : b.stored? = some data) :
    b.child? = none := by
  cases b with
  | buffer tag bytes => rfl
  | external bytes keeper => rfl
  | view start length child => cases hb
  | malformed tag length => cases hb

theorem Body.stores_buffer {tag : UInt8} {data : List UInt8}
    (htag : SizeClass.isBuffer tag = true)
    (hfits : data.length + SizeClass.headerSize ≤ SizeClass.sizeFor tag) :
    (Body.buffer tag data : Body ρ).Stores data where
  stored := rfl
  sound := fun _ => ⟨htag, hfits⟩
  mortal := by
    rintro ⟨bytes, hb⟩
    cases hb

theorem Body.stores_external {data : List UInt8} {keeper : Keeper ρ}
    (hlen : data.length < wordBound) (hkeeper : keeper ≠ .permanent) :
    (Body.external data keeper).Stores data where
  stored := rfl
  sound := fun _ => hlen
  mortal := by
    rintro ⟨bytes, hb⟩
    cases hb
    exact hkeeper rfl

theorem Owned.pushStores {h : Heap ρ} {held : List NodeId} (ho : Owned h held) {b : Body ρ}
    {data : List UInt8} (hb : b.Stores data) : Owned (h.push ⟨.fresh, b⟩) (h.next :: held) := by
  refine Owned.push ?_ (hb.sound h) hb.mortal
  rw [Body.child?_of_stored? hb.stored]
  exact ho

namespace Heap
variable {h : Heap ρ} {id : NodeId} {n : Node ρ}

/-! ## Primitive steps -/

theorem run_ask_node (hn : h.find? id = some n) : (ask (·.node id)).run h = .ok n h :=
  run_ask_of_eq_ok (node_eq_ok_iff.2 hn)

theorem body_eq_ok {b : Body ρ} (hb : h.body? id = some b) : h.body id = .ok b := by
  obtain ⟨n, hn, rfl⟩ := body?_eq_some_iff.1 hb
  rw [body, node_eq_ok_iff.2 hn]
  rfl

theorem length_eq_ok {b : Body ρ} (hb : h.body? id = some b) : h.length id = .ok b.length := by
  obtain ⟨n, hn, rfl⟩ := body?_eq_some_iff.1 hb
  rw [length, node_eq_ok_iff.2 hn]
  rfl

theorem run_ask_body {b : Body ρ} (hb : h.body? id = some b) :
    (ask (·.body id)).run h = .ok b h :=
  run_ask_of_eq_ok (body_eq_ok hb)

theorem run_attempt_error {α : Type} {fault : Fault}
    (hquiet : (Notice.ofFault? fault : Option (Notice ρ)) = none) :
    (attempt (.error fault) : HeapM ρ α).run h = .error fault h := by
  rw [attempt, hquiet]
  rfl

theorem run_ask_of_eq_error {α : Type} {read : Heap ρ → Except Fault α} {fault : Fault}
    (hquiet : (Notice.ofFault? fault : Option (Notice ρ)) = none) (hfault : read h = .error fault) :
    (ask read).run h = .error fault h := by
  show (attempt (read h)).run h = _
  rw [hfault]
  exact run_attempt_error hquiet

theorem node_eq_error (hdead : h.find? id = none) : h.node id = .error .dangling := by
  rw [node, hdead]

theorem run_ask_node_of_dead (hdead : h.find? id = none) :
    (ask (·.node id)).run h = .error .dangling h :=
  run_ask_of_eq_error rfl (node_eq_error hdead)

theorem body_eq_error (hdead : h.body? id = none) : h.body id = .error .dangling := by
  rw [body, node_eq_error (Option.map_eq_none_iff.1 hdead)]
  rfl

theorem body?_of_body_eq_ok {b : Body ρ} (hok : h.body id = .ok b) : h.body? id = some b := by
  cases hb : h.body? id with
  | none =>
    rw [body_eq_error hb] at hok
    cases hok
  | some c =>
    rw [body_eq_ok hb] at hok
    cases hok
    rfl

theorem run_attempt_of_eq_ok {α : Type} {outcome : Except Fault α} {a : α}
    (hok : outcome = .ok a) : (attempt outcome : HeapM ρ α).run h = .ok a h := by
  rw [hok]
  rfl

theorem run_onCount {α : Type} (hn : h.find? id = some n) {op : EStateM Fault RefCount α} {a : α}
    {refs : RefCount} (hop : op.run n.refs = .ok a refs) :
    (onCount id op).run h = .ok a (h.put id { n with refs }) := by
  rw [onCount, run_bind_of_run_eq_ok (run_ask_node hn), hop]
  rfl

theorem run_onCount_of_run_eq_error {α : Type} (hn : h.find? id = some n)
    {op : EStateM Fault RefCount α} {fault : Fault} {refs : RefCount}
    (hop : op.run n.refs = .error fault refs) :
    (onCount id op).run h = .error fault (h.put id { n with refs }) := by
  rw [onCount, run_bind_of_run_eq_ok (run_ask_node hn), hop]
  rfl

theorem run_retain (hn : h.find? id = some n) :
    (retain id).run h = .ok () (h.put id { n with refs := ⟨n.refs.packed + RefCount.unit⟩ }) :=
  run_onCount hn (RefCount.run_increment n.refs)

theorem put_push (h : Heap ρ) (n m : Node ρ) : (h.push n).put h.next m = h.push m := by
  rw [put, push, push, next, Arena.set_push_size]

/-! ## Buffers -/

/-- An empty buffer is made in the smallest class with the room that was asked for, between the least
payload and the limit. -/
theorem run_newBufferWithin_eq_ok {limit : Nat} (hlo : SizeClass.minLength ≤ limit)
    (hhi : limit ≤ SizeClass.maxLargeLength) (length : Nat) (h : Heap ρ) :
    (newBufferWithin limit length).run h = .ok h.next
      (h.push ⟨.fresh,
        .buffer (SizeClass.leastFor (max SizeClass.minLength (min length limit))) []⟩) := by
  have hmax : SizeClass.maxLargeLength + SizeClass.headerSize < wordBound := by decide
  have hlo' : SizeClass.minLength ≤ max SizeClass.minLength (min length limit) := by omega
  have hhi' : max SizeClass.minLength (min length limit) ≤ SizeClass.maxLargeLength := by omega
  obtain ⟨htag, hbuf⟩ := SizeClass.roundUp_bind_tagFor_eq_leastFor hlo' hhi'
  have hadd : checkedAdd (max SizeClass.minLength (min length limit)) SizeClass.headerSize =
      .ok (max SizeClass.minLength (min length limit) + SizeClass.headerSize) :=
    if_pos (by omega)
  have hreq : require .bufferTag (SizeClass.isBuffer
      (SizeClass.leastFor (max SizeClass.minLength (min length limit)))) = .ok () := if_pos hbuf
  rw [newBufferWithin, run_bind_of_run_eq_ok (run_attempt_of_eq_ok hadd),
    run_bind_of_run_eq_ok (run_attempt_of_eq_ok htag),
    run_bind_of_run_eq_ok (run_attempt_of_eq_ok hreq)]
  rfl

theorem run_newBufferWithin {limit : Nat} (hlo : SizeClass.minLength ≤ limit)
    (hhi : limit ≤ SizeClass.maxLargeLength) (length : Nat) (h : Heap ρ) :
    ∃ tag, (newBufferWithin limit length).run h = .ok h.next (h.push ⟨.fresh, .buffer tag []⟩) ∧
      SizeClass.isBuffer tag = true ∧
      min length limit + SizeClass.headerSize ≤ SizeClass.sizeFor tag := by
  have hlo' : SizeClass.minLength ≤ max SizeClass.minLength (min length limit) := by omega
  obtain ⟨htag, hroom⟩ := SizeClass.mem_roomFor_iff.1
    (SizeClass.isLeast_leastFor hlo' (by omega)).1
  exact ⟨_, run_newBufferWithin_eq_ok hlo hhi length h, htag, by omega⟩

theorem run_newBuffer (length : Nat) (h : Heap ρ) :
    ∃ tag, (newBuffer length).run h = .ok h.next (h.push ⟨.fresh, .buffer tag []⟩) ∧
      SizeClass.isBuffer tag = true ∧
      min length SizeClass.maxLength + SizeClass.headerSize ≤ SizeClass.sizeFor tag :=
  run_newBufferWithin (by decide) (by decide) length h

theorem run_newLargeBuffer (length : Nat) (h : Heap ρ) :
    ∃ tag, (newLargeBuffer length).run h = .ok h.next (h.push ⟨.fresh, .buffer tag []⟩) ∧
      SizeClass.isBuffer tag = true ∧
      min length SizeClass.maxLargeLength + SizeClass.headerSize ≤ SizeClass.sizeFor tag :=
  run_newBufferWithin (by decide) (by decide) length h

theorem run_append_of_isOne {tag : UInt8} {bytes : List UInt8} (hn : h.find? id = some n)
    (hbody : n.body = .buffer tag bytes) (htag : SizeClass.isBuffer tag = true)
    (hfits : bytes.length + SizeClass.headerSize ≤ SizeClass.sizeFor tag)
    (hone : n.refs.isOne = true) (data : List UInt8) :
    ∃ count, count = min data.length (SizeClass.sizeFor tag - SizeClass.headerSize - bytes.length) ∧
      (append id data).run h =
        .ok count (h.put id { n with body := .buffer tag (bytes ++ data.take count) }) := by
  refine ⟨_, rfl, ?_⟩
  have hroom : checkedSub (SizeClass.sizeFor tag - SizeClass.headerSize) bytes.length =
      .ok (SizeClass.sizeFor tag - SizeClass.headerSize - bytes.length) :=
    if_pos (by omega)
  rw [append, run_bind_of_run_eq_ok (run_ask_node hn)]
  simp only [hbody, hone, if_true]
  rw [run_bind_of_run_eq_ok (run_attempt_of_eq_ok (SizeClass.capacityFor_eq_ok htag)),
    run_bind_of_run_eq_ok (run_attempt_of_eq_ok hroom)]
  rfl

theorem run_append_eq_zero (hn : h.find? id = some n)
    (hshared : (∀ tag bytes, n.body ≠ .buffer tag bytes) ∨ n.refs.isOne = false)
    (data : List UInt8) : (append id data).run h = .ok 0 h := by
  rw [append, run_bind_of_run_eq_ok (run_ask_node hn)]
  cases hbody : n.body with
  | buffer tag bytes =>
    rcases hshared with hother | hone
    · exact absurd hbody (hother tag bytes)
    · simp only [hone, Bool.false_eq_true, if_false]
      rfl
  | external bytes keeper => rfl
  | view start length child => rfl
  | malformed tag length => rfl

/-- What an append does is settled before its bytes are looked at. Nothing is written, whatever they are,
or a buffer with one reference and some room is filled up. -/
theorem append_cases (hn : h.find? id = some n)
    (hfits : ∀ tag bytes, n.body = .buffer tag bytes → SizeClass.isBuffer tag = true ∧
      bytes.length + SizeClass.headerSize ≤ SizeClass.sizeFor tag) :
    (∀ data, (append id data).run h = .ok 0 h) ∨
      ∃ tag old, n.body = .buffer tag old ∧ n.refs.isOne = true ∧ SizeClass.isBuffer tag = true ∧
        old.length + SizeClass.headerSize ≤ SizeClass.sizeFor tag := by
  by_cases hshared : (∀ tag bytes, n.body ≠ .buffer tag bytes) ∨ n.refs.isOne = false
  · exact Or.inl (run_append_eq_zero hn hshared)
  · obtain ⟨hbuffer, hone⟩ := not_or.1 hshared
    obtain ⟨tag, old, hbody⟩ : ∃ tag old, n.body = .buffer tag old := by
      by_contra hnone
      exact hbuffer fun tag old hbody => hnone ⟨tag, old, hbody⟩
    exact Or.inr ⟨tag, old, hbody, eq_true_of_ne_false hone, hfits tag old hbody⟩

/-- A fresh buffer that is large enough is filled in one go. -/
theorem run_fill {tag : UInt8} {data : List UInt8} (htag : SizeClass.isBuffer tag = true)
    (hfits : data.length + SizeClass.headerSize ≤ SizeClass.sizeFor tag) (h : Heap ρ) :
    (fill h.next data).run (h.push ⟨.fresh, .buffer tag []⟩) =
      .ok h.next (h.push ⟨.fresh, .buffer tag data⟩) := by
  have hn : (h.push ⟨.fresh, .buffer tag []⟩).find? h.next = some ⟨.fresh, .buffer tag []⟩ := by
    rw [find?_push, if_pos rfl]
  obtain ⟨count, hcount, hrun⟩ := run_append_of_isOne hn rfl htag
    (by simp only [List.length_nil]; omega) rfl data
  have hall : count = data.length := by
    simp only [List.length_nil] at hcount
    omega
  rw [fill, run_bind_of_run_eq_ok hrun, put_push, hall, if_pos rfl, List.take_length,
    List.nil_append]
  rfl

/-! ## Nodes with bytes -/

theorem run_ofBytes_of_le {data : List UInt8} (hlen : data.length ≤ SizeClass.maxLargeLength)
    (h : Heap ρ) :
    ∃ tag, (ofBytes data).run h = .ok h.next (h.push ⟨.fresh, .buffer tag data⟩) ∧
      SizeClass.isBuffer tag = true ∧
      data.length + SizeClass.headerSize ≤ SizeClass.sizeFor tag := by
  rw [ofBytes]
  by_cases hsmall : data.length ≤ SizeClass.maxLength
  · obtain ⟨tag, hrun, htag, hfits⟩ := run_newBuffer data.length h
    have hfits : data.length + SizeClass.headerSize ≤ SizeClass.sizeFor tag := by omega
    refine ⟨tag, ?_, htag, hfits⟩
    rw [if_pos hsmall, run_bind_of_run_eq_ok hrun, run_fill htag hfits]
  · obtain ⟨tag, hrun, htag, hfits⟩ := run_newLargeBuffer data.length h
    have hfits : data.length + SizeClass.headerSize ≤ SizeClass.sizeFor tag := by omega
    refine ⟨tag, ?_, htag, hfits⟩
    rw [if_neg hsmall, if_pos hlen, run_bind_of_run_eq_ok hrun, run_fill htag hfits]

theorem run_ofBytes {data : List UInt8} (hlen : data.length < wordBound) (h : Heap ρ) :
    ∃ b : Body ρ, (ofBytes data).run h = .ok h.next (h.push ⟨.fresh, b⟩) ∧ b.Stores data := by
  by_cases hlarge : data.length ≤ SizeClass.maxLargeLength
  · obtain ⟨tag, hrun, htag, hfits⟩ := run_ofBytes_of_le hlarge h
    exact ⟨_, hrun, Body.stores_buffer htag hfits⟩
  · have hmax : SizeClass.maxLength ≤ SizeClass.maxLargeLength := by decide
    refine ⟨.external data .copied, ?_, Body.stores_external hlen (by simp)⟩
    rw [ofBytes, if_neg (by omega), if_neg hlarge]
    rfl

/-- A buffer with given bytes is an empty one with the bytes in it. -/
theorem run_bufferWithExtra_of_run_newBuffer {data : List UInt8}
    (hlen : data.length ≤ SizeClass.maxLength) {extra : Nat} {h : Heap ρ} {tag : UInt8}
    (hrun : (newBuffer (min (data.length + extra) (wordBound - 1))).run h =
      .ok h.next (h.push ⟨.fresh, .buffer tag []⟩)) :
    (bufferWithExtra data extra).run h = .ok h.next (h.push ⟨.fresh, .buffer tag data⟩) := by
  have hn : (h.push ⟨.fresh, .buffer tag []⟩).find? h.next = some ⟨.fresh, .buffer tag []⟩ := by
    rw [find?_push, if_pos rfl]
  rw [bufferWithExtra, if_pos hlen, run_bind_of_run_eq_ok hrun,
    run_bind_of_run_eq_ok (run_ask_node hn)]
  show (EStateM.Result.ok h.next ((h.push ⟨.fresh, .buffer tag []⟩).put h.next _) :
    EStateM.Result Fault (Heap ρ) NodeId) = _
  rw [put_push]
  rfl

theorem run_bufferWithExtra {data : List UInt8} (hlen : data.length ≤ SizeClass.maxLength)
    (extra : Nat) (h : Heap ρ) :
    ∃ b : Body ρ, (bufferWithExtra data extra).run h = .ok h.next (h.push ⟨.fresh, b⟩) ∧
      b.Stores data := by
  have hmax : SizeClass.maxLength < wordBound := by decide
  obtain ⟨tag, hrun, htag, hfits⟩ := run_newBuffer (min (data.length + extra) (wordBound - 1)) h
  exact ⟨_, run_bufferWithExtra_of_run_newBuffer hlen hrun, Body.stores_buffer htag (by omega)⟩

theorem run_bufferWithExtra_of_lt {data : List UInt8} (hlen : SizeClass.maxLength < data.length)
    (extra : Nat) (h : Heap ρ) :
    (bufferWithExtra data extra).run h = .error (.bufferTooSmall data.length) h := by
  rw [bufferWithExtra, if_neg (by omega)]
  rfl

theorem run_ofOwner (bytes : List UInt8) (owner : ρ) (h : Heap ρ) :
    (ofOwner bytes owner).run h = .ok h.next (h.push ⟨.fresh, .external bytes (.lent owner)⟩) :=
  rfl

theorem run_newStatic (bytes : List UInt8) (h : Heap ρ) :
    (newStatic bytes).run h = .ok h.next (h.push ⟨.immortal, .external bytes .permanent⟩) :=
  rfl

theorem run_ofStatic (hn : h.find? id = some n) (himm : n.refs.isImmortal = true) :
    (ofStatic id).run h =
      .ok id (h.put id { n with refs := ⟨n.refs.packed + RefCount.unit⟩ }) := by
  have hreq : require .immortalCount n.refs.isImmortal = .ok () := if_pos himm
  rw [ofStatic, run_bind_of_run_eq_ok (run_ask_node hn),
    run_bind_of_run_eq_ok (run_attempt_of_eq_ok hreq), run_bind_of_run_eq_ok (run_retain hn)]
  rfl

end Heap
end RopeStore
