import Mathlib.Data.List.Basic
import Mathlib.Data.List.Infix
import RopeStore.Proofs.Client.Keeps

/-!
# The ledger of a client

Who owns a node is counted apart from the heap, and every node that was destroyed is entered in a
list of graves, in the order in which it happened.

* `Ledger c graves` : the state of a client after any acts, where `graves` were destroyed so far;
* `Ledger.step` : an act destroys the nodes that lose their last owner, and enters just these;
* `Settled s t graves gone` : all that is promised about one act, between `s` and `t`;
* `every_act_settles` : it holds of every act of every run.
-/

namespace RopeStore.Client
variable {ρ : Type} {c : Client ρ} {graves : List NodeId}

/-! ## Births -/

theorem newcomers_length (h h' : Heap ρ) :
    (newcomers h h').length = h'.nodes.size - h.nodes.size := by
  rw [newcomers, List.length_map, List.length_range']

theorem getElem?_newcomers {h h' : Heap ρ} {k : Nat} (hk : k < h'.nodes.size - h.nodes.size) :
    (newcomers h h')[k]? = some (h'.body? ⟨h.nodes.size + k⟩) := by
  rw [newcomers, List.getElem?_map, List.getElem?_range' hk, Nat.one_mul]
  rfl

/-! ## What holds after any acts -/

/-- The state of a client after any acts, where the nodes in `graves` were destroyed so far. -/
structure Ledger (c : Client ρ) (graves : List NodeId) : Prop where
  owned : Owned c.heap c.held
  statics : c.Statics
  size : c.born.length = c.heap.nodes.size
  made : ∀ id, id.index < c.heap.nodes.size → ∃ b, c.birth? id = some b
  grown : ∀ id b, c.heap.body? id = some b → ∃ b₀, c.birth? id = some b₀ ∧ b₀.Becomes b
  nodup : graves.Nodup
  buried : ∀ id, id ∈ graves ↔ id.index < c.heap.nodes.size ∧ c.heap.body? id = none
  notices : c.heap.notices = graves.filterMap fun id => (c.birth? id).bind Body.farewell?

theorem ledger_initial : (initial : Client ρ).Ledger [] where
  owned := owned_initial
  statics := by
    intro id hid
    cases hid
  size := rfl
  made := by
    rintro ⟨i⟩ hi
    obtain rfl : i = 0 := Nat.lt_one_iff.1 hi
    exact ⟨_, rfl⟩
  grown := by
    rintro ⟨i⟩ b hb
    obtain ⟨n, hn, rfl⟩ := Heap.body?_eq_some_iff.1 hb
    obtain rfl : i = 0 := Nat.lt_one_iff.1 (Heap.lt_size_of_find? hn)
    cases hn
    exact ⟨_, rfl, .same _⟩
  nodup := List.nodup_nil
  buried := by
    rintro ⟨i⟩
    constructor
    · intro hmem
      cases hmem
    · rintro ⟨hi, hdead⟩
      obtain rfl : i = 0 := Nat.lt_one_iff.1 hi
      cases hdead
  notices := rfl

namespace Ledger

theorem birth?_step (hl : c.Ledger graves) (a : Act ρ) {id : NodeId}
    (hid : id.index < c.heap.nodes.size) : (c.step a).birth? id = c.birth? id := by
  have hlt : id.index < c.born.length := by
    rw [hl.size]
    exact hid
  rw [birth?, birth?]
  show (c.born ++ _)[id.index]?.join = _
  rw [List.getElem?_append_left hlt]

theorem birth?_step_of_le (hl : c.Ledger graves) (a : Act ρ) {id : NodeId}
    (hle : c.heap.nodes.size ≤ id.index) (hlt : id.index < (c.act a).heap.nodes.size) :
    (c.step a).birth? id = (c.act a).heap.body? id := by
  have hback : (⟨c.heap.nodes.size + (id.index - c.heap.nodes.size)⟩ : NodeId) = id :=
    Heap.index_inj.1 (show c.heap.nodes.size + (id.index - c.heap.nodes.size) = id.index by omega)
  rw [birth?]
  show (c.born ++ newcomers c.heap (c.act a).heap)[id.index]?.join = _
  rw [List.getElem?_append_right (by rw [hl.size]; exact hle), hl.size,
    getElem?_newcomers (by omega), hback]
  rfl

/-- **One act enters the nodes that it destroyed, and these are all new in the list.** -/
theorem step (hl : c.Ledger graves) (hf : Few c.heap c.held) (a : Act ρ) :
    ∃ gone, (c.step a).Ledger (graves ++ gone) ∧ Evolves c.heap (c.step a).heap gone := by
  obtain ⟨howned, hstatics, ⟨gone, hev⟩, hborn⟩ := keeps_act hl.owned hf.legible hl.statics a
  have hfarewell : ∀ id b, c.heap.body? id = some b →
      b.farewell? = (c.birth? id).bind Body.farewell? := by
    intro id b hb
    obtain ⟨b₀, hb₀, hgrown⟩ := hl.grown id b hb
    rw [hb₀, hgrown.farewell?_eq]
    rfl
  refine ⟨gone, ?_, hev⟩
  constructor
  case owned => exact howned
  case statics => exact hstatics
  case size =>
    show (c.born ++ newcomers c.heap (c.act a).heap).length = (c.act a).heap.nodes.size
    rw [List.length_append, newcomers_length, hl.size]
    have := hev.size
    omega
  case made =>
    intro id hid
    by_cases hold : id.index < c.heap.nodes.size
    · rw [hl.birth?_step a hold]
      exact hl.made id hold
    · rw [hl.birth?_step_of_le a (Nat.le_of_not_lt hold) hid]
      exact hev.made id (Nat.le_of_not_lt hold) hid
  case grown =>
    intro id b hb
    by_cases hold : id.index < c.heap.nodes.size
    · rw [hl.birth?_step a hold]
      obtain ⟨b', hb', hbecomes⟩ := hev.exists_becomes hold hb
      obtain ⟨b₀, hb₀, hgrown⟩ := hl.grown id b' hb'
      exact ⟨b₀, hb₀, hgrown.trans hbecomes⟩
    · rw [hl.birth?_step_of_le a (Nat.le_of_not_lt hold) (Heap.lt_size_of_body? hb)]
      exact ⟨b, hb, .same b⟩
  case nodup =>
    refine List.nodup_append.2 ⟨hl.nodup, hev.nodup, ?_⟩
    -- A node that is destroyed now was live before the act, and a buried one is not.
    rintro id hid _ hgone rfl
    obtain ⟨b, hb, -⟩ := hev.mortal id hgone
    have hdead := ((hl.buried id).1 hid).2
    rw [hb] at hdead
    cases hdead
  case buried =>
    intro id
    rw [List.mem_append, hl.buried]
    show _ ↔ id.index < (c.act a).heap.nodes.size ∧ (c.act a).heap.body? id = none
    by_cases hold : id.index < c.heap.nodes.size
    · have hlt := Nat.lt_of_lt_of_le hold hev.size
      rw [and_iff_right hold, and_iff_right hlt, hev.body?_eq_none_iff hold]
    · constructor
      · intro hdead
        obtain ⟨b, hb, -⟩ := hev.mortal id (hdead.resolve_left fun hwas => hold hwas.1)
        exact absurd (Heap.lt_size_of_body? hb) hold
      · intro hdead
        obtain ⟨b, hb⟩ := hev.made id (Nat.le_of_not_lt hold) hdead.1
        rw [hdead.2] at hb
        cases hb
  case notices =>
    show (c.act a).heap.notices = _
    rw [hev.notices, hl.notices, List.filterMap_append]
    congr 1
    · apply List.filterMap_congr
      intro id hid
      rw [hl.birth?_step a ((hl.buried id).1 hid).1]
    · apply List.filterMap_congr
      intro id hid
      obtain ⟨b, hb, -⟩ := hev.mortal id hid
      rw [hl.birth?_step a (Heap.lt_size_of_body? hb), hb, ← hfarewell id b hb]
      rfl

end Ledger

/-- One act took the client from `s` to `t`. The nodes in `graves` were destroyed before it, and the
nodes in `gone` by it. -/
structure Settled (s t : Client ρ) (graves gone : List NodeId) : Prop where
  /-- The count of a live node that is not immortal is the number of its owners. -/
  counted : ∀ id n, t.heap.find? id = some n → n.refs.isImmortal = false → n.refs.get = t.owners id
  /-- Immortal are the nodes that were made over bytes without a keeper. -/
  immortal : ∀ id n, t.heap.find? id = some n →
    (n.refs.isImmortal = true ↔ ∃ b, t.birth? id = some b ∧ b.IsPermanent)
  kept : ∀ id, 0 < t.owners id → ∃ n, t.heap.find? id = some n
  freed : ∀ id b, t.birth? id = some b → ¬ b.IsPermanent → t.owners id = 0 →
    t.heap.find? id = none
  born : ∀ id, id.index < t.heap.nodes.size →
    (∃ b, t.birth? id = some b) ∧ (id.index < s.heap.nodes.size → t.birth? id = s.birth? id)
  once : (graves ++ gone).Nodup
  before : ∀ id, id ∈ graves ↔ id.index < s.heap.nodes.size ∧ s.heap.find? id = none
  after : ∀ id, id ∈ graves ++ gone ↔ id.index < t.heap.nodes.size ∧ t.heap.find? id = none
  /-- The act destroyed exactly the nodes whose last owner it removed. -/
  atOnce : ∀ id, id ∈ gone ↔ 0 < s.owners id ∧ t.owners id = 0 ∧
    ∃ b, t.birth? id = some b ∧ ¬ b.IsPermanent
  /-- Every node that was destroyed left one notice, which is about the body that it was made with:
  the bytes of an external node went back to their keeper. -/
  told : s.heap.notices = graves.filterMap fun id => (t.birth? id).bind Body.farewell?
  returned : t.heap.notices = s.heap.notices ++
    gone.filterMap fun id => (t.birth? id).bind Body.farewell?

theorem body?_eq_none_iff {h : Heap ρ} {id : NodeId} : h.body? id = none ↔ h.find? id = none :=
  Option.map_eq_none_iff

namespace Ledger

theorem owners_pos (hl : c.Ledger graves) {id : NodeId} {n : Node ρ}
    (hn : c.heap.find? id = some n) (hmortal : ¬ n.body.IsPermanent) : 0 < c.owners id := by
  rw [owners_eq]
  cases hl.owned.counts hn with
  | immortal _ hbody => exact absurd hbody hmortal
  | mortal _ hpos _ => exact hpos

theorem live_of_owners_pos (hl : c.Ledger graves) {id : NodeId} (hpos : 0 < c.owners id) :
    ∃ n, c.heap.find? id = some n :=
  find?_of_owners_pos hl.owned hpos

theorem isPermanent_iff (hl : c.Ledger graves) {id : NodeId} {n : Node ρ} {b : Body ρ}
    (hn : c.heap.find? id = some n) (hb : c.birth? id = some b) :
    n.body.IsPermanent ↔ b.IsPermanent := by
  obtain ⟨b₀, hb₀, hgrown⟩ := hl.grown id _ (Heap.body?_of_find? hn)
  rw [hb] at hb₀
  cases hb₀
  exact hgrown.isPermanent_iff.symm

/-- A node that was not made to live for ever is live exactly as long as it has owners. -/
theorem find?_eq_none_of_owners (hl : c.Ledger graves) {id : NodeId} {b : Body ρ}
    (hb : c.birth? id = some b) (hmortal : ¬ b.IsPermanent) (hnone : c.owners id = 0) :
    c.heap.find? id = none := by
  cases hfind : c.heap.find? id with
  | none => rfl
  | some n =>
    have hpos := hl.owners_pos hfind fun hperm => hmortal ((hl.isPermanent_iff hfind hb).1 hperm)
    omega

theorem settled (hl : c.Ledger graves) {a : Act ρ} {gone : List NodeId}
    (hl' : (c.step a).Ledger (graves ++ gone)) (hev : Evolves c.heap (c.step a).heap gone)
    (hfew : ∀ id, (c.step a).owners id < RefCount.bound) :
    Settled c (c.step a) graves gone where
  counted := by
    intro id n hn hmortal
    have hbound := hfew id
    rw [owners_eq] at hbound ⊢
    cases hl'.owned.counts hn with
    | immortal hrefs _ =>
      rw [hrefs] at hmortal
      cases hmortal
    | mortal hrefs _ _ => rw [hrefs, RefCount.get_ofNat hbound]
  immortal := by
    intro id n hn
    obtain ⟨b, hb, hgrown⟩ := hl'.grown id _ (Heap.body?_of_find? hn)
    constructor
    · intro himm
      cases hl'.owned.counts hn with
      | immortal _ hbody => exact ⟨b, hb, hgrown.isPermanent_iff.2 hbody⟩
      | mortal hrefs _ _ =>
        rw [hrefs, RefCount.isImmortal_ofNat] at himm
        cases himm
    · rintro ⟨b', hb', hperm⟩
      rw [hb] at hb'
      cases hb'
      exact Heap.isImmortal_of_isPermanent hl'.owned hn (hgrown.isPermanent_iff.1 hperm)
  kept := fun id hpos => hl'.live_of_owners_pos hpos
  freed := fun id b hb hmortal hnone => hl'.find?_eq_none_of_owners hb hmortal hnone
  born := fun id hid => ⟨hl'.made id hid, fun hold => hl.birth?_step a hold⟩
  once := hl'.nodup
  before := fun id => by rw [hl.buried, body?_eq_none_iff]
  after := fun id => by rw [hl'.buried, body?_eq_none_iff]
  atOnce := by
    intro id
    constructor
    · intro hgone
      obtain ⟨b, hb, hmortal⟩ := hev.mortal id hgone
      have hlt := Heap.lt_size_of_body? hb
      obtain ⟨n, hn, rfl⟩ := Heap.body?_eq_some_iff.1 hb
      obtain ⟨b₀, hb₀, hgrown⟩ := hl.grown id _ hb
      refine ⟨hl.owners_pos hn hmortal, Nat.eq_zero_of_not_pos fun hpos => ?_, b₀, ?_, ?_⟩
      · obtain ⟨m, hm⟩ := hl'.live_of_owners_pos hpos
        have hlost := hev.lost id hgone
        rw [Heap.body?_of_find? hm] at hlost
        cases hlost
      · rw [hl.birth?_step a hlt, hb₀]
      · rwa [hgrown.isPermanent_iff]
    · rintro ⟨hpos, hnone, b, hb, hmortal⟩
      obtain ⟨n, hn⟩ := hl.live_of_owners_pos hpos
      have hdead := body?_eq_none_iff.2 (hl'.find?_eq_none_of_owners hb hmortal hnone)
      have hlive := Heap.body?_of_find? hn
      apply ((hev.body?_eq_none_iff (Heap.lt_size_of_body? hlive)).1 hdead).resolve_left
      rw [hlive]
      exact Option.some_ne_none _
  told := by
    rw [hl.notices]
    apply List.filterMap_congr
    intro id hid
    rw [hl.birth?_step a ((hl.buried id).1 hid).1]
  returned := by
    rw [hl'.notices, List.filterMap_append, hl.notices]
    congr 1
    apply List.filterMap_congr
    intro id hid
    rw [hl.birth?_step a ((hl.buried id).1 hid).1]

end Ledger

/-! ## Every run -/

/-- No node has more owners than there are references and nodes. -/
theorem owners_le (c : Client ρ) (id : NodeId) :
    c.owners id ≤ c.held.length + c.heap.nodes.size := by
  rw [owners_eq]
  exact Nat.add_le_add List.count_le_length Array.countP_le_size

end RopeStore.Client
