import Mathlib.Data.List.Basic
import RopeStore.Proofs.Heap.Evolve
import RopeStore.Proofs.Heap.Lends
import RopeStore.Proofs.Heap.Views
import RopeStore.Proofs.Trial.Steps
import RopeStore.Trial.Agreement

/-!
# Nodes and what is expected of them

* `Mirrored h live` : one node has the bytes and the outside owner that are expected of it;
* `Mirrors h lives keys` : all nodes have, and nothing but the nodes `lives` keeps the heap alive;
* `Mirrors.copy`, `Mirrors.lend`, `Mirrors.part`, `Mirrors.retain`, `Mirrors.ends_release`,
  `Mirrors.ends_append` : the operations on nodes, each with what is expected after it;
* `Mirrors.refs` : the count of a node is the number of references to it that are known;
* `Mirrors.mem_keys_iff` : the outside owners are those of the nodes that are referred to.
-/

namespace RopeStore.Trial
variable {h h' : Heap Nat} {live : LiveNode} {lives : List LiveNode} {keys : List Nat} {id : NodeId}

/-- A node has the bytes and the outside owner that are expected of it. -/
structure Mirrored (h : Heap Nat) (live : LiveNode) : Prop where
  apart : live.node ≠ Heap.emptyId
  content : h.content? live.node = some live.expected
  short : live.expected.length ≤ SizeClass.maxLargeSize
  external : h.owner? (h.base live.node) = live.external

/-- What is expected of a node is a matter of its body and of the body of the node below it. -/
theorem Mirrored.congr {b : Body Nat} (hm : Mirrored h live) (hb : h.body? live.node = some b)
    (hb' : h'.body? live.node = some b)
    (hchild : ∀ child, b.child? = some child → h'.body? child = h.body? child) :
    Mirrored h' live := by
  have hbase : h'.base live.node = h.base live.node := by
    rw [Heap.base, Heap.base, hb, hb']
  refine ⟨hm.apart, by rw [Heap.content?_congr hb hb' hchild, hm.content], hm.short, ?_⟩
  rw [hbase, ← hm.external, Heap.owner?, Heap.owner?, Heap.base, hb, Option.bind_some]
  cases hc : b.child? with
  | none => rw [Option.getD_none, hb, hb']
  | some child => rw [Option.getD_some, hchild child hc]

/-- All nodes have what is expected of them, and nothing else keeps the heap alive. -/
structure Mirrors (h : Heap Nat) (lives : List LiveNode) (keys : List Nat) : Prop where
  owned : Owned h (lives.map (·.node))
  lends : Lends h keys
  faithful : ∀ live ∈ lives, Mirrored h live
  permanent : ∀ {id b}, h.body? id = some b → b.IsPermanent → id = Heap.emptyId

theorem mirrors_initial : Mirrors (Heap.initial : Heap Nat) [] [] where
  owned := owned_initial
  lends := by
    have hnone : ∀ id, (Heap.initial : Heap Nat).owner? id = none := by
      intro id
      rw [Heap.owner?, Option.bind_eq_none_iff]
      intro b hb
      obtain ⟨m, hm, rfl⟩ := Heap.body?_eq_some_iff.1 hb
      rw [(Heap.find?_initial hm).2]
      rfl
    refine ⟨List.nodup_nil, fun key => ⟨by simp, ?_⟩, fun {i j key} hi => ?_⟩
    · rintro ⟨id, hid⟩
      rw [hnone] at hid
      cases hid
    · rw [hnone] at hi
      cases hi
  faithful := by simp
  permanent := by
    intro id b hb _
    obtain ⟨m, hm, -⟩ := Heap.body?_eq_some_iff.1 hb
    exact (Heap.find?_initial hm).1

namespace Mirrors

theorem perm {lives' : List LiveNode} (hm : Mirrors h lives keys) (hp : lives.Perm lives') :
    Mirrors h lives' keys where
  owned := hm.owned.perm (hp.symm.map _)
  lends := hm.lends
  faithful := fun live hlive => hm.faithful live (hp.mem_iff.2 hlive)
  permanent := hm.permanent

theorem congr (hm : Mirrors h lives keys) (hnodes : h'.nodes = h.nodes) : Mirrors h' lives keys := by
  obtain ⟨nodes, notices⟩ := h
  obtain ⟨nodes', notices'⟩ := h'
  obtain rfl : nodes' = nodes := hnodes
  exact ⟨hm.owned.congr (fun _ => rfl) (fun _ => rfl) fun _ => rfl, hm.lends.congr fun _ => rfl,
    fun live hlive => { hm.faithful live hlive with }, hm.permanent⟩

theorem few (hm : Mirrors h lives keys) (hlen : lives.length < RefCount.bound) :
    Few h (lives.map (·.node)) := by
  apply hm.owned.few
  rwa [List.length_map]

theorem body?_of_mem (hm : Mirrors h lives keys) (hlive : live ∈ lives) :
    ∃ n, h.find? live.node = some n ∧ ¬ n.body.IsPermanent ∧
      live.expected.length = n.body.length := by
  obtain ⟨n, hn⟩ := hm.owned.live (List.mem_map_of_mem hlive)
  have hb := Heap.body?_of_find? hn
  refine ⟨n, hn, fun hperm => (hm.faithful live hlive).apart (hm.permanent hb hperm), ?_⟩
  obtain ⟨data, hdata, -, hlen⟩ := Heap.bytes_eq_ok hm.owned hb
  rw [(hm.faithful live hlive).content] at hdata
  cases hdata
  exact hlen

/-- **The count of a node is the number of references to it that are known.** -/
theorem refs (hm : Mirrors h lives keys) (hlen : lives.length < RefCount.bound)
    (hlive : live ∈ lives) :
    ∃ n, h.find? live.node = some n ∧
      n.refs = .ofNat ((lives.map (·.node)).count live.node + h.viewsOver live.node) ∧
      (lives.map (·.node)).count live.node + h.viewsOver live.node < RefCount.bound := by
  obtain ⟨n, hn, hmortal, -⟩ := hm.body?_of_mem hlive
  refine ⟨n, hn, ?_, hm.few hlen _⟩
  cases hm.owned.counts hn with
  | immortal hrefs hbody => exact absurd hbody hmortal
  | mortal hrefs hpos hbody => exact hrefs

/-- **The heap lends what is reachable, and nothing else.** -/
theorem mem_keys_iff {key : Nat} (hm : Mirrors h lives keys) :
    key ∈ keys ↔ ∃ live ∈ lives, live.external = some key := by
  rw [hm.lends.mem_iff]
  constructor
  · rintro ⟨id, hid⟩
    obtain ⟨b, hb, howner⟩ := Option.bind_eq_some_iff.1 hid
    obtain ⟨n, hn, rfl⟩ := Heap.body?_eq_some_iff.1 hb
    have hflat : n.body.child? = none := by
      cases hbody : n.body with
      | view start length child =>
        rw [hbody] at howner
        cases howner
      | _ => rfl
    -- a lent node is mortal, so a reference or a view keeps it alive, and a view is itself referred to
    have hheld : ∃ j ∈ lives.map (·.node), h.base j = id := by
      cases hm.owned.counts hn with
      | immortal hrefs hbody =>
        obtain ⟨bytes, hbody⟩ := hbody
        rw [hbody] at howner
        cases howner
      | mortal hrefs hpos hbody =>
        by_cases hviews : 0 < h.viewsOver id
        · obtain ⟨j, m, hj, hchild⟩ := Heap.viewsOver_pos_iff.1 hviews
          have hjbody := Heap.body?_of_find? hj
          have hc : h.child? j = some id := by rw [Heap.child?, hjbody, Option.bind_some, hchild]
          refine ⟨j, hm.owned.mem_of_child? hc, ?_⟩
          rw [Heap.base, hjbody, Option.bind_some, hchild, Option.getD_some]
        · exact ⟨id, List.count_pos_iff.1 (by omega), Heap.base_of_flat hb hflat⟩
    obtain ⟨j, hj, hbase⟩ := hheld
    obtain ⟨live, hlive, rfl⟩ := List.mem_map.1 hj
    exact ⟨live, hlive, by rw [← (hm.faithful live hlive).external, hbase, hid]⟩
  · rintro ⟨live, hlive, hexternal⟩
    exact ⟨_, (hm.faithful live hlive).external.trans hexternal⟩

theorem recount {lives' : List LiveNode} (hm : Mirrors h lives keys)
    (ho : Owned h' (lives'.map (·.node))) (hsub : ∀ live ∈ lives', live ∈ lives)
    (hbody : ∀ id, h'.body? id = h.body? id) : Mirrors h' lives' keys where
  owned := ho
  lends := hm.lends.congr fun id => by rw [Heap.owner?, Heap.owner?, hbody]
  faithful := by
    intro live hlive
    obtain ⟨n, hn, -⟩ := hm.body?_of_mem (hsub live hlive)
    have hb := Heap.body?_of_find? hn
    exact (hm.faithful live (hsub live hlive)).congr hb (by rw [hbody, hb]) fun child _ => hbody child
  permanent := by
    intro id b hb
    rw [hbody] at hb
    exact hm.permanent hb

theorem push {b : Body Nat} {data : List UInt8} (hm : Mirrors h lives keys)
    (ho : Owned h' (h.next :: lives.map (·.node)))
    (hbody : ∀ id, h'.body? id = if id = h.next then some b else h.body? id)
    (hmortal : ¬ b.IsPermanent) (hcontent : h'.content? h.next = some data)
    (hshort : data.length ≤ SizeClass.maxLargeSize) (hfresh : ∀ key ∈ b.owner?, key ∉ keys) :
    Mirrors h' (⟨h.next, data, h'.owner? (h'.base h.next)⟩ :: lives) (b.owner?.toList ++ keys) where
  owned := ho
  lends := by
    refine hm.lends.push (fun id => ?_) hfresh
    rw [Heap.owner?, hbody]
    split <;> rfl
  faithful := by
    have hold : ∀ {id c}, h.body? id = some c → h'.body? id = h.body? id := by
      intro id c hc
      rw [hbody, if_neg]
      rintro rfl
      rw [Heap.body?, Heap.find?_next] at hc
      cases hc
    intro live hlive
    rcases List.mem_cons.1 hlive with rfl | hlive
    · refine ⟨?_, hcontent, hshort, rfl⟩
      intro heq
      obtain ⟨n, hn, -⟩ := hm.owned.empty
      have hnone := Heap.find?_next h
      rw [show h.next = Heap.emptyId from heq, hn] at hnone
      cases hnone
    · obtain ⟨n, hn, -⟩ := hm.body?_of_mem hlive
      have hb := Heap.body?_of_find? hn
      refine (hm.faithful live hlive).congr hb ((hold hb).trans hb) fun child hchild => ?_
      obtain ⟨m, hchildBody, -⟩ := (hm.owned.sound_of_find? hn).child hchild
      exact hold (Heap.body?_of_find? hchildBody)
  permanent := by
    intro id c hc hperm
    rw [hbody] at hc
    by_cases hid : id = h.next
    · rw [if_pos hid] at hc
      cases hc
      exact absurd hperm hmortal
    · rw [if_neg hid] at hc
      exact hm.permanent hc hperm

theorem pushStores {b : Body Nat} {data : List UInt8} (hm : Mirrors h lives keys)
    (hb : b.Stores data) (hshort : data.length ≤ SizeClass.maxLargeSize)
    (hfresh : ∀ key ∈ b.owner?, key ∉ keys) :
    Mirrors (h.push ⟨.fresh, b⟩) (⟨h.next, data, b.owner?⟩ :: lives) (b.owner?.toList ++ keys) := by
  have hflat := Body.child?_of_stored? hb.stored
  have hself : (h.push ⟨.fresh, b⟩).body? h.next = some b := by
    rw [Heap.body?_push, if_pos rfl]
  have hcontent : (h.push ⟨.fresh, b⟩).content? h.next = some data := by
    rw [Heap.content?_of_flat hself hflat, hb.stored]
  have hpush := hm.push (hm.owned.pushStores hb) (Heap.body?_push h _) hb.mortal hcontent hshort
    hfresh
  rwa [Heap.base_of_flat hself hflat, Heap.owner?, hself, Option.bind_some] at hpush

/-! ## Operations -/

theorem copy {data : List UInt8} (hm : Mirrors h lives keys)
    (hlen : data.length ≤ SizeClass.maxLargeLength) :
    ∃ h', (Heap.ofBytes data).run h = .ok h.next h' ∧ h'.notices = h.notices ∧
      (∃ tag, h'.body? h.next = some (.buffer tag data)) ∧
      Mirrors h' (⟨h.next, data, none⟩ :: lives) keys := by
  obtain ⟨tag, hrun, htag, hfits⟩ := Heap.run_ofBytes_of_le hlen h
  have hmax : SizeClass.maxLargeLength ≤ SizeClass.maxLargeSize := by decide
  exact ⟨_, hrun, rfl, ⟨tag, by rw [Heap.body?_push, if_pos rfl]⟩,
    hm.pushStores (Body.stores_buffer htag hfits) (Nat.le_trans hlen hmax) (by simp [Body.owner?])⟩

/-- A node over bytes that belong to a new owner. -/
theorem lend {data : List UInt8} {key : Nat} (hm : Mirrors h lives keys)
    (hlen : data.length ≤ SizeClass.maxLargeSize) (hkey : key ∉ keys) :
    ∃ h', (Heap.ofOwner data key).run h = .ok h.next h' ∧ h'.notices = h.notices ∧
      h'.body? h.next = some (.external data (.lent key)) ∧
      Mirrors h' (⟨h.next, data, some key⟩ :: lives) (key :: keys) := by
  have hword : SizeClass.maxLargeSize < wordBound := by decide
  refine ⟨_, Heap.run_ofOwner data key h, rfl, by rw [Heap.body?_push, if_pos rfl], ?_⟩
  apply hm.pushStores (Body.stores_external (by omega) (by simp)) hlen
  rintro _ ⟨⟩
  exact hkey

theorem retain (hm : Mirrors h lives keys) (hlive : live ∈ lives) :
    ∃ h', (Heap.retain live.node).run h = .ok () h' ∧ h'.notices = h.notices ∧
      (∀ id, h'.body? id = h.body? id) ∧ Mirrors h' (live :: lives) keys := by
  obtain ⟨n, hn, -⟩ := hm.body?_of_mem hlive
  refine ⟨_, Heap.run_retain hn, rfl, Heap.body?_put_refs hn _, hm.recount (hm.owned.retain hn) ?_
    (Heap.body?_put_refs hn _)⟩
  intro l hl
  rcases List.mem_cons.1 hl with rfl | hl
  · exact hlive
  · exact hl

/-- A new view over the node that holds the bytes of `live`. -/
theorem pushView {start count viewStart : Nat} {c : Node Nat} {stored : List UInt8}
    (hm : Mirrors h lives keys) (hlive : live ∈ lives)
    (hc : h.find? (h.base live.node) = some c) (hstored : c.body.stored? = some stored)
    (hdata : (live.expected.drop start).take count = (stored.drop viewStart).take count)
    (hbody : ∀ id, h'.body? id =
      if id = h.next then some (.view viewStart count (h.base live.node)) else h.body? id)
    (howned : Owned h' (h.next :: lives.map (·.node))) :
    Mirrors h' (⟨h.next, (live.expected.drop start).take count, live.external⟩ :: lives) keys ∧
      h'.child? h.next = some (h'.base live.node) := by
  obtain ⟨n, hn, -⟩ := hm.body?_of_mem hlive
  have hfaithful := hm.faithful live hlive
  have hself : h'.body? h.next = some (.view viewStart count (h.base live.node)) := by
    rw [hbody, if_pos rfl]
  have hcbody : h'.body? (h.base live.node) = some c.body := by
    rw [hbody, if_neg, Heap.body?_of_find? hc]
    intro heq
    rw [heq, Heap.find?_next] at hc
    cases hc
  have hbase : h'.base live.node = h.base live.node := by
    rw [Heap.base, Heap.base, hbody, if_neg]
    intro heq
    rw [heq, Heap.find?_next] at hn
    cases hn
  have hcontent : h'.content? h.next = some ((live.expected.drop start).take count) := by
    rw [Heap.content?, hself]
    show ((h'.body? (h.base live.node)).bind Body.stored?).map _ = _
    rw [hcbody, Option.bind_some, hstored, hdata]
    rfl
  have hshort : ((live.expected.drop start).take count).length ≤ SizeClass.maxLargeSize := by
    have := hfaithful.short
    rw [List.length_take, List.length_drop]
    omega
  have hpush := hm.push howned hbody (by simp [Body.IsPermanent]) hcontent hshort
    (by simp [Body.owner?])
  rw [Heap.base_of_view hself, Heap.owner?, hcbody] at hpush
  constructor
  · rw [← hfaithful.external, Heap.owner?, Heap.body?_of_find? hc]
    exact hpush
  · rw [hbase, Heap.child?, hself]
    rfl

/-- All of the bytes of a node are the node itself, and fewer are a view over the node that holds
them. -/
theorem part {start count : Nat} (hm : Mirrors h lives keys) (hlive : live ∈ lives)
    (hpos : 0 < count) (hle : start + count ≤ live.expected.length) :
    ∃ id h', (Heap.part live.node start count).run h = .ok id h' ∧ h'.notices = h.notices ∧
      Mirrors h' (⟨id, (live.expected.drop start).take count, live.external⟩ :: lives) keys ∧
      (if count = live.expected.length then id = live.node
        else h'.child? id = some (h'.base live.node)) := by
  obtain ⟨n, hn, -, hlen⟩ := hm.body?_of_mem hlive
  have hb := Heap.body?_of_find? hn
  have hgood : 0 < count ∧ start < n.body.length ∧ count ≤ n.body.length - start := by omega
  by_cases hall : count = live.expected.length
  · obtain rfl : start = 0 := by omega
    obtain ⟨h', hrun, hnotices, -, hm'⟩ := hm.retain hlive
    rw [hlen] at hall
    have hpart := Heap.run_part_of_all hn hgood hall
    rw [Heap.run_retain hn] at hrun
    cases hrun
    refine ⟨live.node, _, hpart, rfl, ?_, by rw [if_pos (hlen ▸ hall)]⟩
    rw [hall, ← hlen, List.drop_zero, List.take_length]
    exact hm'
  · have hi := hm.owned.intact hb
    obtain ⟨c, hc, hsound, hrun⟩ := hi.run_part_of_proper hgood (hlen ▸ hall)
    obtain ⟨d, stored, hd, -, hstored, -⟩ := hi.exists_base
    rw [Heap.body?_of_find? hc] at hd
    cases hd
    obtain ⟨howned, -⟩ := (Heap.makes_part hm.owned hn start count).good_of_run_eq_ok hrun
    have hdata := hi.drop_take_eq (hm.faithful live hlive).content (Heap.body?_of_find? hc) hstored
      (show start + count ≤ n.body.length by omega)
    have hview := hm.pushView hlive hc hstored hdata.symm ?_ howned
    · refine ⟨h.next, _, hrun, rfl, hview.1, ?_⟩
      rw [if_neg hall]
      exact hview.2
    · intro id
      rw [Heap.body?_push, Heap.body?_put_refs hc, Heap.next_put]

/-- One reference less. The owners of what is destroyed are told. -/
theorem ends_release (hm : Mirrors h (live :: lives) keys)
    (hlen : (live :: lives).length < RefCount.bound) :
    Ends (Heap.release live.node) h fun _ h' => ∃ told keys', Mirrors h' lives keys' ∧
      h'.notices = h.notices ++ told ∧ keys.Perm (told.filterMap Notice.owner? ++ keys') := by
  apply (Heap.ends_release hm.owned (hm.few hlen)).mono
  intro _ h' hafter
  obtain ⟨⟨gone, hlost⟩, howned⟩ := hafter
  obtain ⟨keys', hlends, hperm⟩ := hm.lends.lost hlost
  have hkept : ∀ {id b}, h'.body? id = some b → h.body? id = some b := by
    intro id b hb
    rw [hlost.body] at hb
    by_cases hgone : id ∈ gone
    · rw [if_pos hgone] at hb
      cases hb
    · rwa [if_neg hgone] at hb
  refine ⟨_, keys', ⟨howned, hlends, ?_, fun hb => hm.permanent (hkept hb)⟩, hlost.notices, ?_⟩
  · intro l hl
    obtain ⟨n, hn⟩ := howned.live (List.mem_map_of_mem hl)
    have hb := Heap.body?_of_find? hn
    apply (hm.faithful l (List.mem_cons_of_mem _ hl)).congr (hkept hb) hb
    intro child hchild
    obtain ⟨m, hchildNode, -⟩ := (howned.sound_of_find? hn).child hchild
    have hchildBody := Heap.body?_of_find? hchildNode
    rw [hchildBody, hkept hchildBody]
  · rwa [Lends.owners_of_notices]

/-- The node that has one reference, and what is not it, when it gets other bytes. -/
theorem refill {tag : UInt8} {old bytes : List UInt8} {n : Node Nat}
    (hm : Mirrors h (live :: lives) keys) (hn : h.find? live.node = some n)
    (hbody : n.body = .buffer tag old) (hfits : bytes.length + SizeClass.headerSize ≤
      SizeClass.sizeFor tag)
    (hone : ((live :: lives).map (·.node)).count live.node + h.viewsOver live.node = 1) :
    Mirrors (h.put live.node { n with body := .buffer tag bytes })
      (⟨live.node, bytes, live.external⟩ :: lives) keys := by
  have hb := Heap.body?_of_find? hn
  rw [List.map_cons, List.count_cons_self] at hone
  have hviews : h.viewsOver live.node = 0 := by omega
  have hbodies : ∀ id, id ≠ live.node →
      (h.put live.node { n with body := .buffer tag bytes }).body? id = h.body? id := by
    intro id hid
    rw [Heap.body?_put hn, if_neg hid]
  have hself : (h.put live.node { n with body := .buffer tag bytes }).body? live.node =
      some (.buffer tag bytes) := by
    rw [Heap.body?_put hn, if_pos rfl]
  have howners : ∀ id, (h.put live.node { n with body := .buffer tag bytes }).owner? id =
      h.owner? id := by
    intro id
    by_cases hid : id = live.node
    · rw [hid, Heap.owner?, Heap.owner?, hself, hb, hbody]
      rfl
    · rw [Heap.owner?, Heap.owner?, hbodies id hid]
  have hfaithful := hm.faithful live List.mem_cons_self
  refine ⟨hm.owned.refill hn hbody hviews hfits, hm.lends.congr howners, ?_, ?_⟩
  · intro l hl
    rcases List.mem_cons.1 hl with rfl | hl
    · refine ⟨hfaithful.apart, ?_, ?_, ?_⟩
      · rw [Heap.content?_of_flat hself rfl]
        rfl
      · have hs := hm.owned.sound_of_find? hn
        rw [hbody] at hs
        have := SizeClass.sizeFor_le_maxLargeSize hs.1
        show bytes.length ≤ _
        omega
      · show Heap.owner? _ (Heap.base _ live.node) = live.external
        rw [Heap.base_of_flat hself rfl, howners, ← hfaithful.external, Heap.base_of_flat hb]
        rw [hbody]
        rfl
    -- A second name of the node would be a second owner.
    · have hother : l.node ≠ live.node := by
        intro heq
        have hpos := List.count_pos_iff.2 (List.mem_map_of_mem (f := (·.node)) hl)
        rw [heq] at hpos
        omega
      obtain ⟨m, hmNode, -⟩ := hm.body?_of_mem (List.mem_cons_of_mem _ hl)
      have hmBody := Heap.body?_of_find? hmNode
      refine (hm.faithful l (List.mem_cons_of_mem _ hl)).congr hmBody ((hbodies _ hother).trans hmBody)
        fun child hchild => hbodies child ?_
      rintro rfl
      have hpos := Heap.viewsOver_pos_iff.2 ⟨_, _, hmNode, hchild⟩
      omega
  · intro id b hid hperm
    by_cases heq : id = live.node
    · rw [heq, hself] at hid
      cases hid
      obtain ⟨_, hperm⟩ := hperm
      cases hperm
    · rw [hbodies id heq] at hid
      exact hm.permanent hid hperm

/-- How much a node takes: what is left of its capacity if it is a buffer with one reference, and
nothing otherwise. -/
theorem ends_append (hm : Mirrors h (live :: lives) keys)
    (hlen : (live :: lives).length < RefCount.bound) (data : List UInt8) :
    ∃ n capacity room, h.find? live.node = some n ∧
      n.refs.isOne = decide (((live :: lives).map (·.node)).count live.node +
        h.viewsOver live.node = 1) ∧
      n.body.capacity = .ok capacity ∧
      roomOf capacity n.refs.isOne live.expected.length = .ok room ∧
      Ends (Heap.append live.node data) h fun count h' => count = min room data.length ∧
        h'.notices = h.notices ∧
        Mirrors h' (⟨live.node, live.expected ++ data.take count, live.external⟩ :: lives) keys := by
  have hmem : live ∈ live :: lives := List.mem_cons_self
  obtain ⟨n, hn, hrefs, hbound⟩ := hm.refs hlen hmem
  have hone := RefCount.isOne_ofNat hbound
  rw [← hrefs] at hone
  have hs := hm.owned.sound_of_find? hn
  have hb := Heap.body?_of_find? hn
  have hsame : Mirrors h (⟨live.node, live.expected ++ data.take 0, live.external⟩ :: lives) keys := by
    rw [List.take_zero, List.append_nil]
    exact hm
  -- Nothing is taken by a node that is shared or no buffer.
  have hnothing : ((∀ tag bytes, n.body ≠ .buffer tag bytes) ∨ n.refs.isOne = false) →
      Ends (Heap.append live.node data) h fun count h' => count = min 0 data.length ∧
        h'.notices = h.notices ∧
        Mirrors h' (⟨live.node, live.expected ++ data.take count, live.external⟩ :: lives) keys :=
    fun hshared => ends_of_run_eq_ok (Heap.run_append_eq_zero hn hshared data)
      ⟨(Nat.zero_min _).symm, rfl, hsame⟩
  cases hbody : n.body with
  | buffer tag bytes =>
    rw [hbody] at hs
    have hcapacity : n.body.capacity =
        .ok (some (SizeClass.sizeFor tag - SizeClass.headerSize)) := by
      rw [hbody, Body.capacity, SizeClass.capacityFor_eq_ok hs.1]
      rfl
    have hbytes : bytes = live.expected := by
      have hcontent := (hm.faithful live hmem).content
      rw [Heap.content?_of_flat hb (by rw [hbody]; rfl), hbody] at hcontent
      exact Option.some.inj hcontent
    subst hbytes
    cases hunique : n.refs.isOne with
    | false =>
      refine ⟨n, _, 0, hn, hone, hcapacity, ?_, ?_⟩
      · rw [hunique]
        rfl
      · exact hnothing (Or.inr hunique)
    | true =>
      obtain ⟨count, hcount, hrun⟩ := Heap.run_append_of_isOne hn hbody hs.1 hs.2 hunique data
      refine ⟨n, _, SizeClass.sizeFor tag - SizeClass.headerSize - live.expected.length, hn, hone,
        hcapacity, ?_, ?_⟩
      · have := hs.2
        show (if n.refs.isOne then checkedSub _ _ else _) = _
        rw [hunique, if_pos rfl]
        exact if_pos (by omega)
      · rw [hunique, eq_comm, decide_eq_true_eq] at hone
        refine ends_of_run_eq_ok hrun ⟨by rw [hcount, Nat.min_comm], rfl, ?_⟩
        refine hm.refill hn hbody ?_ hone
        have := hs.2
        rw [List.length_append, List.length_take]
        omega
  | external bytes keeper =>
    exact ⟨n, none, 0, hn, hone, by rw [hbody]; rfl, rfl, hnothing (Or.inl (by simp [hbody]))⟩
  | view start length child =>
    exact ⟨n, none, 0, hn, hone, by rw [hbody]; rfl, rfl, hnothing (Or.inl (by simp [hbody]))⟩
  | malformed tag length =>
    rw [hbody] at hs
    exact hs.elim

end Mirrors
end RopeStore.Trial
