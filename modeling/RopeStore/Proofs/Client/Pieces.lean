import Mathlib.Data.List.Basic
import Mathlib.Data.List.Infix
import RopeStore.Proofs.Client.Inside

/-!
# Bytes appended in pieces

* `Heap.appendEach id pieces` : the pieces are appended one after the other;
* `Open h id n tag old room` : node `id` is a buffer with one reference, which holds `old` and has room for
  `room` bytes more; `Open.run_append` : an append fills it up, and what is left is open again;
* `Open.run_appendEach` : pieces fill it up as all of them at once do;
* `pieces_append_as_one` : so it is of every live node, whatever a client did before.
-/

namespace RopeStore
variable {ρ : Type} {h : Heap ρ} {id : NodeId} {n : Node ρ} {tag : UInt8} {old : List UInt8}
  {room : Nat}

/-- Appends piece after piece to the buffer `id` and answers with the number of bytes appended. -/
def Heap.appendEach (id : NodeId) : List (List UInt8) → HeapM ρ Nat
  | [] => pure 0
  | piece :: pieces => do
    let count ← append id piece
    let more ← appendEach id pieces
    return count + more

/-- Node `id` is a buffer with one reference, which holds the bytes `old` and has room for `room` more. -/
structure Open (h : Heap ρ) (id : NodeId) (n : Node ρ) (tag : UInt8) (old : List UInt8)
    (room : Nat) : Prop where
  live : h.find? id = some n
  body : n.body = .buffer tag old
  sole : n.refs.isOne = true
  buffer : SizeClass.isBuffer tag = true
  size : old.length + room + SizeClass.headerSize = SizeClass.sizeFor tag

/-- The node with `data` behind its bytes `old`, as much of it as there is room for. -/
def Node.filled (n : Node ρ) (tag : UInt8) (old : List UInt8) (room : Nat) (data : List UInt8) :
    Node ρ :=
  { n with body := .buffer tag (old ++ data.take room) }

theorem Node.filled_eq (n : Node ρ) (tag : UInt8) (old : List UInt8) (room : Nat)
    (data : List UInt8) : n.filled tag old room data =
      { n with body := .buffer tag (old ++ data.take (min data.length room)) } := by
  rw [filled, List.take_eq_take_min, Nat.min_comm]

namespace Open

/-- An append fills up the node, and nothing else happens. -/
theorem run_append (ho : Open h id n tag old room) (data : List UInt8) :
    (Heap.append id data).run h =
      .ok (min data.length room) (h.put id (n.filled tag old room data)) := by
  have hsize := ho.size
  obtain ⟨count, hcount, hrun⟩ :=
    Heap.run_append_of_isOne ho.live ho.body ho.buffer (by omega) ho.sole data
  have hroom : SizeClass.sizeFor tag - SizeClass.headerSize - old.length = room := by omega
  rw [hrun, hcount, hroom, Node.filled_eq]

/-- What is filled up is open to what did not fit yet. -/
theorem filled (ho : Open h id n tag old room) (data : List UInt8) :
    Open (h.put id (n.filled tag old room data)) id (n.filled tag old room data) tag
      (old ++ data.take room) (room - data.length) where
  live := by rw [Heap.find?_put ho.live, if_pos rfl]
  body := rfl
  sole := ho.sole
  buffer := ho.buffer
  size := by
    have := ho.size
    rw [List.length_append, List.length_take]
    omega

theorem filled_nil (ho : Open h id n tag old room) : n.filled tag old room [] = n := by
  rw [Node.filled, List.take_nil, List.append_nil, ← ho.body]

theorem filled_filled (n : Node ρ) (tag : UInt8) (old : List UInt8) (room : Nat)
    (a b : List UInt8) :
    (n.filled tag old room a).filled tag (old ++ a.take room) (room - a.length) b =
      n.filled tag old room (a ++ b) := by
  rw [Node.filled, Node.filled, Node.filled, List.append_assoc, ← List.take_append]

/-- **Pieces fill up a buffer as all of them at once do.** -/
theorem run_appendEach (ho : Open h id n tag old room) (pieces : List (List UInt8)) :
    (Heap.appendEach id pieces).run h =
      .ok (min pieces.flatten.length room) (h.put id (n.filled tag old room pieces.flatten)) := by
  induction pieces generalizing h n old room with
  | nil =>
    rw [List.flatten_nil, ho.filled_nil, Heap.put_of_find? ho.live, List.length_nil, Nat.zero_min]
    rfl
  | cons piece pieces ih =>
    rw [Heap.appendEach, run_bind_of_run_eq_ok (ho.run_append piece),
      run_bind_of_run_eq_ok (ih (ho.filled piece)), Heap.put_put, filled_filled, List.flatten_cons,
      List.length_append]
    have hcount : min piece.length room + min pieces.flatten.length (room - piece.length) =
        min (piece.length + pieces.flatten.length) room := by omega
    rw [← hcount]
    rfl

end Open

namespace Heap

theorem run_appendEach_eq_zero (hnone : ∀ data, (append id data).run h = .ok 0 h)
    (pieces : List (List UInt8)) : (appendEach id pieces).run h = .ok 0 h := by
  induction pieces with
  | nil => rfl
  | cons piece pieces ih =>
    rw [appendEach, run_bind_of_run_eq_ok (hnone piece), run_bind_of_run_eq_ok ih]
    rfl

/-- A live node is open to some bytes, or nothing is ever appended to it. -/
theorem Shaped.append_cases (hs : h.Shaped) (hn : h.find? id = some n) :
    (∀ data, (append id data).run h = .ok 0 h) ∨ ∃ tag old room, Open h id n tag old room := by
  have hfits := hs id n.body (body?_of_find? hn)
  rcases Heap.append_cases hn (fun tag bytes hbody => by rwa [hbody] at hfits) with
    hnone | ⟨tag, old, hbody, hone, htag, hle⟩
  · exact Or.inl hnone
  · exact Or.inr ⟨tag, old, SizeClass.sizeFor tag - (old.length + SizeClass.headerSize), hn, hbody,
      hone, htag, by omega⟩

/-- **Pieces are appended to a live node as all of them at once are.** -/
theorem Shaped.run_appendEach (hs : h.Shaped) (hn : h.find? id = some n)
    (pieces : List (List UInt8)) :
    (appendEach id pieces).run h = (append id pieces.flatten).run h := by
  rcases hs.append_cases hn with hnone | ⟨tag, old, room, ho⟩
  · rw [run_appendEach_eq_zero hnone, hnone]
  · rw [ho.run_appendEach, ho.run_append]

end Heap

namespace Client
variable {c : Client ρ}

/-- A node is open to some bytes, or no append to it does anything, be it live or not. -/
theorem perform_append_cases (hs : c.heap.Shaped) (id : NodeId) :
    (∀ data, c.perform (Heap.append id data) = c) ∨
      ∃ n tag old room, Open c.heap id n tag old room := by
  cases hn : c.heap.find? id with
  | none =>
    refine Or.inl fun data => ?_
    rw [perform, Heap.append, run_bind_of_run_eq_error (Heap.run_ask_node_of_dead hn)]
  | some n =>
    rcases hs.append_cases hn with hnone | ⟨tag, old, room, ho⟩
    · refine Or.inl fun data => ?_
      rw [perform, hnone]
    · exact Or.inr ⟨n, tag, old, room, ho⟩

theorem perform_append_nil (hs : c.heap.Shaped) (id : NodeId) :
    c.perform (Heap.append id []) = c := by
  rcases perform_append_cases hs id with hnone | ⟨n, tag, old, room, ho⟩
  · exact hnone []
  · rw [perform, ho.run_append, ho.filled_nil, Heap.put_of_find? ho.live]

theorem perform_append_append (hs : c.heap.Shaped) (id : NodeId) (a b : List UInt8) :
    (c.perform (Heap.append id a)).perform (Heap.append id b) =
      c.perform (Heap.append id (a ++ b)) := by
  rcases perform_append_cases hs id with hnone | ⟨n, tag, old, room, ho⟩
  · rw [hnone, hnone, hnone]
  · have hsecond := (ho.filled a).run_append b
    simp only [perform, ho.run_append, hsecond, Heap.put_put, Open.filled_filled]

theorem refs_perform {α : Type} (op : HeapM ρ α) : (c.perform op).refs = c.refs := by
  rw [perform]
  cases op.run c.heap <;> rfl

theorem exec_append {i : Nat} (hi : c.refs[i]? = some id) (data : Bytes) :
    c.exec (.act (.append i data)) = c.perform (Heap.append id data.1) := by
  show c.refs[i]?.elim c _ = _
  rw [hi, Option.elim_some]

theorem exec_append_of_none {i : Nat} (hi : c.refs[i]? = none) (data : Bytes) :
    c.exec (.act (.append i data)) = c := by
  show c.refs[i]?.elim c _ = _
  rw [hi, Option.elim_none]

/-- Appends through one reference, one after the other, come to one append. -/
theorem exec_pieces (hs : c.heap.Shaped) (i : Nat) (pieces : List Bytes) {whole : Bytes}
    (hwhole : whole.1 = (pieces.map Subtype.val).flatten) :
    (pieces.map fun piece => Deed.act (.append i piece)).foldl exec c =
      c.exec (.act (.append i whole)) := by
  induction pieces generalizing c whole with
  | nil =>
    rw [List.map_nil, List.foldl_nil]
    cases hi : c.refs[i]? with
    | none => rw [exec_append_of_none hi]
    | some id => rw [exec_append hi, hwhole, List.map_nil, List.flatten_nil, perform_append_nil hs]
  | cons piece pieces ih =>
    rw [List.map_cons, List.flatten_cons] at hwhole
    have hlen : (pieces.map Subtype.val).flatten.length < wordBound := by
      have := whole.2
      rw [hwhole, List.length_append] at this
      omega
    rw [List.map_cons, List.foldl_cons,
      ih (shaped_exec hs _) (rfl : (⟨_, hlen⟩ : Bytes).1 = (pieces.map Subtype.val).flatten)]
    cases hi : c.refs[i]? with
    | none => rw [exec_append_of_none hi, exec_append_of_none hi, exec_append_of_none hi]
    | some id =>
      have hi' : (c.exec (.act (.append i piece))).refs[i]? = some id := by
        rw [exec_append hi, refs_perform, hi]
      rw [exec_append hi', exec_append hi, exec_append hi, perform_append_append hs, hwhole]

theorem isOne_iff_owners (ho : Owned c.heap c.held) (hl : Legible c.heap c.held)
    (hn : c.heap.find? id = some n) {tag : UInt8} {old : List UInt8} (hbody : n.body = .buffer tag old) :
    n.refs.isOne = true ↔ c.owners id = 1 := by
  rw [owners_eq]
  cases ho.counts hn with
  | immortal _ hperm =>
    obtain ⟨bytes, hexternal⟩ := hperm
    rw [hbody] at hexternal
    cases hexternal
  | mortal hrefs _ _ => rw [hrefs, RefCount.isOne_ofNat_of_le (hl id), decide_eq_true_eq]

/-- **After every list of deeds, pieces that are appended to a live node one after the other do and tell
what one append of all of them does and tells, whatever they are. To a buffer with one reference it adds
as many bytes as there is room for, behind those that it has; its tag, its capacity and its count stay,
and it never holds more than its capacity. To all other nodes nothing is ever added.** A client that
appends the pieces through one of its references is as it would be after the one append. The buffers with
one reference are those with one owner, as long as no node has had more owners than there are words for
its count. -/
theorem pieces_append_as_one (deeds : List (Deed ρ)) :
    let h := (after deeds).heap
    (∀ id n, h.find? id = some n → ∀ pieces : List (List UInt8),
      (Heap.appendEach id pieces).run h = (Heap.append id pieces.flatten).run h) ∧
    (∀ id n tag old, h.find? id = some n → n.body = .buffer tag old →
      ∃ capacity, n.body.capacity = .ok (some capacity) ∧ old.length ≤ capacity ∧
        h.bytes id = .ok old ∧
        (n.refs.isOne = true → ∀ pieces : List (List UInt8),
          let count := min pieces.flatten.length (capacity - old.length)
          let new := old ++ pieces.flatten.take count
          let h' := h.put id { n with body := .buffer tag new }
          (Heap.appendEach id pieces).run h = .ok count h' ∧
          h'.find? id = some { n with body := .buffer tag new } ∧
          h'.bytes id = .ok new ∧ new.length ≤ capacity ∧ h'.notices = h.notices ∧
          ∀ j, j ≠ id → h'.find? j = h.find? j)) ∧
    (∀ id n, h.find? id = some n →
      (∀ tag old, n.body ≠ .buffer tag old) ∨ n.refs.isOne = false →
      ∀ pieces : List (List UInt8), (Heap.appendEach id pieces).run h = .ok 0 h) ∧
    (∀ i (pieces : List Bytes) (whole : Bytes), whole.1 = (pieces.map Subtype.val).flatten →
      after (deeds ++ pieces.map fun piece => .act (.append i piece)) =
        after (deeds ++ [.act (.append i whole)])) ∧
    (Uncrowded deeds →
      ∀ id n tag old, h.find? id = some n → n.body = .buffer tag old →
        (n.refs.isOne = true ↔ (after deeds).owners id = 1)) := by
  intro h
  have hs : h.Shaped := shaped_after deeds
  refine ⟨fun id n hn => hs.run_appendEach hn, fun id n tag old hn hbody => ?_,
    fun id n hn hshared => Heap.run_appendEach_eq_zero (Heap.run_append_eq_zero hn hshared),
    fun i pieces whole hwhole => ?_, fun hu id n tag old hn hbody => ?_⟩
  · have hb := Heap.body?_of_find? hn
    rw [hbody] at hb
    obtain ⟨htag, hfits⟩ := hs id _ hb
    refine ⟨SizeClass.sizeFor tag - SizeClass.headerSize, ?_, by omega,
      Heap.bytes_of_stored? hb rfl, fun hone pieces => ?_⟩
    · rw [hbody, Body.capacity, SizeClass.capacityFor_eq_ok htag]
      rfl
    have ho : Open h id n tag old (SizeClass.sizeFor tag - SizeClass.headerSize - old.length) :=
      ⟨hn, hbody, hone, htag, by omega⟩
    intro count new h'
    have hself : h'.find? id = some { n with body := .buffer tag new } := by
      rw [Heap.find?_put hn, if_pos rfl]
    refine ⟨?_, hself, Heap.bytes_of_stored? (Heap.body?_of_find? hself) rfl, ?_, rfl, fun j hj => ?_⟩
    · rw [ho.run_appendEach, Node.filled_eq]
    · rw [List.length_append, List.length_take]
      omega
    · rw [Heap.find?_put hn, if_neg hj]
  · rw [after_concat, after, List.foldl_append]
    exact exec_pieces hs i pieces hwhole
  · exact isOne_iff_owners hu.sane.owned hu.legible hn hbody

end Client
end RopeStore
